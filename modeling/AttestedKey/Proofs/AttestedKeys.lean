import AttestedKey.KeyStore.Attested
import AttestedKey.Proofs.Conversation
import AttestedKey.Proofs.Walk

/-! What is said with a key store while a key is generated and attested. `IsAttestation` lists the
conversations by where they end, and `Attests` says what holds of each of them. Over a run of
orders, a store that keeps the chains of what it has generated generates an attest key of a name
once (`IsRun`). -/

namespace AttestedKey

open Dialogue

namespace KeyStoreCall

abbrev Exchange := Dialogue.Exchange Answer

abbrev Store := Dialogue.Partner Answer

abbrev looked (name : String) (found : Option CertificateChain) : Exchange := ⟨.chainOf name, found⟩

abbrev generated (q : KeyParameters) (answer : Except PlatformError CertificateChain) : Exchange :=
  ⟨.generate q, answer⟩

def keys (said : List Exchange) : List KeyParameters :=
  said.filterMap fun x =>
    match x.question with
    | .generate q => some q
    | .chainOf _ => none

@[simp] theorem keys_append (front back : List Exchange) :
    keys (front ++ back) = keys front ++ keys back :=
  List.filterMap_append

/-- Every generation that was asked for succeeded. -/
def Succeeds (said : List Exchange) : Prop :=
  ∀ q answer, generated q answer ∈ said → ∃ chain, answer = .ok chain

theorem generated_inj {q q' : KeyParameters} {a a' : Except PlatformError CertificateChain} :
    generated q a = generated q' a' ↔ q = q' ∧ a = a' := by
  constructor
  · intro h
    cases h
    exact ⟨rfl, rfl⟩
  · rintro ⟨rfl, rfl⟩
    rfl

theorem generated_ne_looked {q : KeyParameters} {a : Except PlatformError CertificateChain}
    {name : String} {found : Option CertificateChain} : generated q a ≠ looked name found := by
  rintro ⟨⟩

theorem succeeds_nil : Succeeds [] := by
  rintro q answer ⟨⟩

theorem Succeeds.append {front back : List Exchange} (h : Succeeds front) (h' : Succeeds back) :
    Succeeds (front ++ back) := by
  intro q answer hmem
  rcases List.mem_append.1 hmem with hmem | hmem
  · exact h q answer hmem
  · exact h' q answer hmem

theorem Succeeds.looked {said : List Exchange} (h : Succeeds said) (name : String)
    (found : Option CertificateChain) : Succeeds (looked name found :: said) := by
  intro q answer hmem
  rcases List.mem_cons.1 hmem with heq | hmem
  · exact absurd heq generated_ne_looked
  · exact h q answer hmem

theorem Succeeds.generated {said : List Exchange} (h : Succeeds said) (q : KeyParameters)
    (chain : CertificateChain) : Succeeds (generated q (.ok chain) :: said) := by
  intro q' answer hmem
  rcases List.mem_cons.1 hmem with heq | hmem
  · exact ⟨chain, (generated_inj.1 heq).2⟩
  · exact h q' answer hmem

theorem Succeeds.not_mem {said : List Exchange} (h : Succeeds said) (q : KeyParameters)
    (e : PlatformError) : KeyStoreCall.generated q (.error e) ∉ said := by
  intro hmem
  obtain ⟨chain, hchain⟩ := h q _ hmem
  cases hchain

theorem not_succeeds_append (good : List Exchange) (q : KeyParameters) (e : PlatformError) :
    ¬ Succeeds (good ++ [generated q (.error e)]) :=
  fun h => h.not_mem q e (List.mem_append_right good (List.mem_singleton.2 rfl))

end KeyStoreCall

namespace KeyParameters

open KeyStoreCall

variable {p : KeyParameters}

/-- What is said until there is the attest key, if one is asked for. -/
inductive Prepared (p : KeyParameters) : List Exchange → Prop
  | unasked (h : p.attestKeyName = none) : Prepared p []
  | found {name : String} {chain : CertificateChain} (h : p.attestKeyName = some name) :
      Prepared p [looked name (some chain)]
  | made {name : String} {chain : CertificateChain} (h : p.attestKeyName = some name) :
      Prepared p [looked name none, generated (p.attestKey name) (.ok chain)]

/-- What is said behind the generation of a key with the chain `own`, and the chain that this makes
it. -/
inductive Joined (p : KeyParameters) (own : CertificateChain) :
    List Exchange → CertificateChain → Prop
  | alone (h : p.attestKeyName = none) : Joined p own [] own
  | onto {name : String} {chain : CertificateChain} (h : p.attestKeyName = some name) :
      Joined p own [looked name (some chain)] (own ++ chain)

def Combines (p : KeyParameters) (said : List Exchange) (chain : CertificateChain) : Prop :=
  ∃ front own back, said = front ++ generated p (.ok own) :: back ∧ Prepared p front ∧
    Joined p own back chain

/-- An attest key is asked for, and at the start the store has no chain under its name. -/
def Lacks (p : KeyParameters) (said : List Exchange) (name : String) : Prop :=
  p.attestKeyName = some name ∧ said.head? = some (looked name none)

section

variable {R : Type} [RevocationLookup R] [Cryptography] {context : TrustContext R} {time : Instant}

/-- The conversations about a key, by where they end, and what they come to. -/
inductive IsAttestation (p : KeyParameters) (context : TrustContext R) (time : Instant) :
    List Exchange → Except KeyStoreError AttestedChain → Prop
  | unprepared {name : String} {e : PlatformError} (h : p.attestKeyName = some name) :
      IsAttestation p context time [looked name none, generated (p.attestKey name) (.error e)]
        (.error (.platform e))
  | ungenerated {front : List Exchange} {e : PlatformError} (h : Prepared p front) :
      IsAttestation p context time (front ++ [generated p (.error e)]) (.error (.platform e))
  | missing {front : List Exchange} {own : CertificateChain} {name : String} (h : Prepared p front)
      (hname : p.attestKeyName = some name) :
      IsAttestation p context time (front ++ [generated p (.ok own), looked name none])
        (.error (.missingChain name))
  | empty {front back : List Exchange} {own : CertificateChain} (h : Prepared p front)
      (hjoined : Joined p own back []) :
      IsAttestation p context time (front ++ generated p (.ok own) :: back)
        (.error (.chain "Empty certificate chain"))
  | attested {front back : List Exchange} {own chain : CertificateChain}
      {evaluation : ChainEvaluation}
      (h : Prepared p front) (hjoined : Joined p own back chain)
      (hevaluation : chain.evaluate context time = .ok evaluation) :
      IsAttestation p context time (front ++ generated p (.ok own) :: back)
        (.ok ⟨chain, evaluation⟩)

/-- An evaluation fails of the empty chain only. -/
theorem evaluate_eq_error_iff {chain : CertificateChain} {e : ChainError} :
    chain.evaluate context time = .error e ↔ chain = [] ∧ e = .emptyChain := by
  constructor
  · intro h
    rcases chain.evaluate_cases context time with ⟨hnil, herror⟩ | ⟨evaluation, hok, -⟩
    · cases herror.symm.trans h
      exact ⟨by_contra fun hne => CertificateChain.rootFirst_ne_nil hne hnil, rfl⟩
    · cases hok.symm.trans h
  · rintro ⟨rfl, rfl⟩
    rfl

/-- What has been said about a key, and what it has come to. -/
structure Attests (p : KeyParameters) (context : TrustContext R) (time : Instant)
    (said : List Exchange) (r : Except KeyStoreError AttestedChain) : Prop where
  listed : p.IsAttestation context time said r
  /-- Where the attest key is asked for and is not there, it is generated, and the key behind it
  unless that failed. -/
  lacking : ∀ name, p.Lacks said name → keys said = [p.attestKey name, p] ∨
    ∃ e, said = [looked name none, generated (p.attestKey name) (.error e)]
  having : (∀ name, ¬ p.Lacks said name) → keys said = [p]
  /-- Nothing is said behind a failure. -/
  failed : ∀ front q e back, said = front ++ generated q (.error e) :: back → back = [] ∧
    r = .error (.platform e)
  platform_iff : ∀ e, r = .error (.platform e) ↔ ∃ q, generated q (.error e) ∈ said
  missing_iff : ∀ name, r = .error (.missingChain name) ↔
    p.attestKeyName = some name ∧ Succeeds said ∧ said.getLast? = some (looked name none)
  chain_iff : ∀ detail, r = .error (.chain detail) ↔
    detail = "Empty certificate chain" ∧ p.Combines said []
  ok_iff : ∀ a, r = .ok a ↔
    p.Combines said a.chain ∧ a.chain.evaluate context time = .ok a.evaluation

end

theorem Prepared.succeeds {front : List Exchange} (h : Prepared p front) : Succeeds front := by
  cases h with
  | unasked => exact succeeds_nil
  | found => exact succeeds_nil.looked _ _
  | made => exact (succeeds_nil.generated _ _).looked _ _

theorem Joined.succeeds {own chain : CertificateChain} {back : List Exchange}
    (h : Joined p own back chain) : Succeeds back := by
  cases h with
  | alone => exact succeeds_nil
  | onto => exact succeeds_nil.looked _ _

theorem Joined.unique {own chain chain' : CertificateChain} {back : List Exchange}
    (h : Joined p own back chain) (h' : Joined p own back chain') : chain = chain' := by
  cases h with
  | alone => cases h'; rfl
  | onto => cases h'; rfl

theorem Joined.getLast?_ne {own chain : CertificateChain} {front back : List Exchange}
    {name : String} (h : Joined p own back chain) (hname : p.attestKeyName = some name) :
    (front ++ generated p (.ok own) :: back).getLast? ≠ some (looked name none) := by
  cases h with
  | alone hnone => cases hnone.symm.trans hname
  | onto =>
    rw [List.getLast?_append]
    rintro ⟨⟩

theorem Combines.succeeds {said : List Exchange} {chain : CertificateChain}
    (h : p.Combines said chain) : Succeeds said := by
  obtain ⟨front, own, back, rfl, hprepared, hjoined⟩ := h
  exact hprepared.succeeds.append (hjoined.succeeds.generated p own)

/-- The key is generated in one place. -/
theorem Prepared.unique {front front' back back' : List Exchange}
    {a a' : Except PlatformError CertificateChain} (h : Prepared p front) (h' : Prepared p front')
    (heq : front ++ generated p a :: back = front' ++ generated p a' :: back') :
    a = a' ∧ back = back' := by
  cases h with
  | unasked hname =>
    cases h' with
    | unasked => cases heq; exact ⟨rfl, rfl⟩
    | found hname' => cases hname.symm.trans hname'
    | made hname' => cases hname.symm.trans hname'
  | found hname =>
    cases h' with
    | unasked hname' => cases hname.symm.trans hname'
    | found => cases heq; exact ⟨rfl, rfl⟩
    | made => cases heq
  | made hname =>
    cases h' with
    | unasked hname' => cases hname.symm.trans hname'
    | found => cases heq
    | made => cases heq; exact ⟨rfl, rfl⟩

theorem Lacks.unique {said : List Exchange} {name name' : String} (h : p.Lacks said name)
    (hname : p.attestKeyName = some name') : name = name' :=
  Option.some.inj (h.1.symm.trans hname)

section

variable {R : Type} [RevocationLookup R] [Cryptography] {context : TrustContext R} {time : Instant}
  {said : List Exchange} {r : Except KeyStoreError AttestedChain}

/-- Every generation succeeds, or the last thing said is that one has failed. -/
theorem IsAttestation.succeeds_or_failed (h : p.IsAttestation context time said r) :
    (Succeeds said ∧ ∀ e, r ≠ .error (.platform e)) ∨
      ∃ good q e, said = good ++ [generated q (.error e)] ∧ Succeeds good ∧
        r = .error (.platform e) := by
  cases h with
  | unprepared => exact .inr ⟨[_], _, _, rfl, succeeds_nil.looked _ _, rfl⟩
  | ungenerated hprepared => exact .inr ⟨_, _, _, rfl, hprepared.succeeds, rfl⟩
  | missing hprepared =>
    exact .inl ⟨hprepared.succeeds.append ((succeeds_nil.looked _ _).generated _ _), by rintro e ⟨⟩⟩
  | empty hprepared hjoined =>
    exact .inl ⟨hprepared.succeeds.append (hjoined.succeeds.generated _ _), by rintro e ⟨⟩⟩
  | attested hprepared hjoined =>
    exact .inl ⟨hprepared.succeeds.append (hjoined.succeeds.generated _ _), by rintro e ⟨⟩⟩

theorem IsAttestation.failed (h : p.IsAttestation context time said r) {front back : List Exchange}
    {q : KeyParameters} {e : PlatformError}
    (hsaid : said = front ++ generated q (.error e) :: back) :
    back = [] ∧ r = .error (.platform e) := by
  have hmem : generated q (.error e) ∈ said := by simp [hsaid]
  rcases h.succeeds_or_failed with ⟨hsucceeds, -⟩ | ⟨good, q', e', hgood, hsucceeds, rfl⟩
  · exact absurd hmem (hsucceeds.not_mem q e)
  · rcases List.eq_nil_or_concat back with rfl | ⟨init, last, rfl⟩
    · have hlast := (List.append_inj' (hgood.symm.trans hsaid) rfl).2
      cases hlast
      exact ⟨rfl, rfl⟩
    · -- then the failure is among what succeeds
      have hinit : good = front ++ generated q (.error e) :: init := by
        have hends : good ++ [generated q' (.error e')] =
          (front ++ generated q (.error e) :: init) ++ [last] := by
          rw [← hgood, hsaid]
          simp
        exact (List.append_inj' hends rfl).1
      exact absurd (by simp [hinit]) (hsucceeds.not_mem q e)

theorem IsAttestation.platform_iff (h : p.IsAttestation context time said r) (e : PlatformError) :
    r = .error (.platform e) ↔ ∃ q, generated q (.error e) ∈ said := by
  constructor
  · rintro rfl
    rcases h.succeeds_or_failed with ⟨-, hne⟩ | ⟨good, q, e', rfl, -, hr⟩
    · exact absurd rfl (hne e)
    · cases hr
      exact ⟨q, by simp⟩
  · rintro ⟨q, hmem⟩
    obtain ⟨front, back, hsaid⟩ := List.append_of_mem hmem
    exact (h.failed hsaid).2

theorem IsAttestation.missing_iff (h : p.IsAttestation context time said r) (name : String) :
    r = .error (.missingChain name) ↔
      p.attestKeyName = some name ∧ Succeeds said ∧ said.getLast? = some (looked name none) := by
  cases h with
  | unprepared => exact ⟨by rintro ⟨⟩, fun hlast => absurd hlast.2.1 (not_succeeds_append [_] _ _)⟩
  | ungenerated => exact ⟨by rintro ⟨⟩, fun hlast => absurd hlast.2.1 (not_succeeds_append _ _ _)⟩
  | missing hprepared hname =>
    constructor
    · rintro ⟨⟩
      refine ⟨hname, hprepared.succeeds.append ((succeeds_nil.looked _ _).generated _ _), ?_⟩
      rw [List.getLast?_append]
      rfl
    · rintro ⟨hname', -, -⟩
      cases hname.symm.trans hname'
      rfl
  | empty _ hjoined =>
    exact ⟨by rintro ⟨⟩, fun hlast => absurd hlast.2.2 (hjoined.getLast?_ne hlast.1)⟩
  | attested _ hjoined =>
    exact ⟨by rintro ⟨⟩, fun hlast => absurd hlast.2.2 (hjoined.getLast?_ne hlast.1)⟩

/-- The chain that all generations make together decides the rest. -/
theorem IsAttestation.of_combines (h : p.IsAttestation context time said r)
    {chain : CertificateChain} (hcombines : p.Combines said chain) :
    (chain = [] ∧ r = .error (.chain "Empty certificate chain")) ∨
      ∃ evaluation, chain.evaluate context time = .ok evaluation ∧ r = .ok ⟨chain, evaluation⟩ := by
  have hsucceeds := hcombines.succeeds
  obtain ⟨front, own, back, hsaid, hprepared, hjoined⟩ := hcombines
  cases h with
  | unprepared => exact absurd hsucceeds (not_succeeds_append [_] _ _)
  | ungenerated => exact absurd hsucceeds (not_succeeds_append _ _ _)
  | missing hprepared' =>
    obtain ⟨-, rfl⟩ := hprepared'.unique hprepared hsaid
    cases hjoined
  | empty hprepared' hjoined' =>
    obtain ⟨heq, rfl⟩ := hprepared'.unique hprepared hsaid
    cases heq
    exact .inl ⟨hjoined.unique hjoined', rfl⟩
  | attested hprepared' hjoined' hevaluation =>
    obtain ⟨heq, rfl⟩ := hprepared'.unique hprepared hsaid
    cases heq
    cases hjoined.unique hjoined'
    exact .inr ⟨_, hevaluation, rfl⟩

theorem IsAttestation.chain_iff (h : p.IsAttestation context time said r) (detail : String) :
    r = .error (.chain detail) ↔ detail = "Empty certificate chain" ∧ p.Combines said [] := by
  constructor
  · intro hr
    cases h with
    | empty hprepared hjoined =>
      cases hr
      exact ⟨rfl, _, _, _, rfl, hprepared, hjoined⟩
    | _ => cases hr
  · rintro ⟨rfl, hcombines⟩
    rcases h.of_combines hcombines with ⟨-, hr⟩ | ⟨evaluation, hevaluation, -⟩
    · exact hr
    · cases (evaluate_eq_error_iff.2 ⟨rfl, rfl⟩).symm.trans hevaluation

theorem IsAttestation.ok_iff (h : p.IsAttestation context time said r) (a : AttestedChain) :
    r = .ok a ↔ p.Combines said a.chain ∧ a.chain.evaluate context time = .ok a.evaluation := by
  constructor
  · intro hr
    cases h with
    | attested hprepared hjoined hevaluation =>
      cases hr
      exact ⟨⟨_, _, _, rfl, hprepared, hjoined⟩, hevaluation⟩
    | _ => cases hr
  · rintro ⟨hcombines, hevaluation⟩
    rcases h.of_combines hcombines with ⟨hnil, -⟩ | ⟨evaluation, hevaluation', rfl⟩
    · cases (evaluate_eq_error_iff.2 ⟨hnil, rfl⟩).symm.trans hevaluation
    · cases hevaluation'.symm.trans hevaluation
      rfl

end

end KeyParameters

structure Order where
  {R : Type}
  [lookup : RevocationLookup R]
  parameters : KeyParameters
  context : TrustContext R
  time : Instant

attribute [instance] Order.lookup

def Order.attest [Cryptography] (o : Order) : KeyParameters.Attesting AttestedChain :=
  o.parameters.attest o.context o.time

structure Attempt where
  order : Order
  said : List KeyStoreCall.Exchange
  result : Except KeyStoreError AttestedChain

namespace KeyStoreCall

/-- The store has a chain under every name that it has generated a key under. -/
def Keeps (store : Store) : Prop :=
  ∀ past q chain, generated q (.ok chain) ∈ past →
    store past (.chainOf q.name) ≠ (none : Option CertificateChain)

def Kept (said : List Exchange) : Prop :=
  ∀ front q chain back, said = front ++ generated q (.ok chain) :: back → looked q.name none ∉ back

/-- What is said with a store that keeps its chains. -/
theorem Keeps.kept {store : Store} (h : Keeps store) {α : Type} {d : Dialogue Answer α}
    {past said : List Exchange} (hsaid : (converse store d past).2 = past ++ said) : Kept said := by
  intro front q chain back hfront hmem
  obtain ⟨mid, rest, rfl⟩ := List.append_of_mem hmem
  have hsplit : said = front ++ generated q (.ok chain) :: mid ++ looked q.name none :: rest := by
    simpa using hfront
  have hanswer := answer_of_converse hsaid hsplit
  exact h _ q chain (by simp) hanswer.symm

theorem Kept.right {front back : List Exchange} (h : Kept (front ++ back)) : Kept back := by
  rintro front' q chain behind rfl
  exact h (front ++ front') q chain behind (List.append_assoc _ _ _).symm

end KeyStoreCall

namespace Attempt

open KeyStoreCall

/-- The attest key of this name is asked for, the store has none at the start, and it is
generated. -/
def Makes (a : Attempt) (name : String) : Prop :=
  a.order.parameters.Lacks a.said name ∧
    ∃ chain, generated (a.order.parameters.attestKey name) (.ok chain) ∈ a.said

/-- Orders, what is said about them, and what they come to. -/
structure IsRun [Cryptography] (store : Store) (orders : List Order) (attempts : List Attempt) :
    Prop where
  orders : attempts.map Attempt.order = orders
  each : ∀ a ∈ attempts, a.order.parameters.Attests a.order.context a.order.time a.said a.result
  kept : Keeps store → Kept (attempts.flatMap Attempt.said)
  /-- Where chains are kept, nothing that has been generated under a name is generated again as an
  attest key. -/
  reused : Kept (attempts.flatMap Attempt.said) → attempts.Pairwise fun a b =>
    ∀ q chain, generated q (.ok chain) ∈ a.said → ¬ b.order.parameters.Lacks b.said q.name
  once : Kept (attempts.flatMap Attempt.said) → attempts.Pairwise fun a b => ∀ name, a.Makes name →
    ¬ b.Makes name

end Attempt

end AttestedKey
