import AttestedKey.Evaluation.Chain
import Mathlib.Tactic.ByContra

/-! The walk over a chain, root first. Whatever the checks say, it covers the shortest prefix of
the order that ends at a certificate whose attestation reads and refuses delegation, which is a
matter of extensions alone. `evaluate_cases` takes an evaluation apart into this prefix and the
finding on each certificate of it; the other facts about evaluations start from there. -/

namespace AttestedKey

/-- The purposes that count, those of hardware if it names any and else those of software, have
attesting keys among them. -/
def Attestation.Delegates (a : Attestation) : Prop :=
  ∃ ps, (a.hardwareEnforced.purposes = some ps ∨
      a.hardwareEnforced.purposes = none ∧ a.softwareEnforced.purposes = some ps) ∧
    attestKeyPurpose ∈ ps.toList

theorem Attestation.canAttestKeys_iff (a : Attestation) : a.canAttestKeys = true ↔ a.Delegates := by
  unfold canAttestKeys purposes Delegates NumberSet.contains
  cases a.hardwareEnforced.purposes with
  | some ps => simp
  | none => cases a.softwareEnforced.purposes <;> simp

/-- The attestation reads, and its key must not attest others. -/
def Certificate.Refuses (c : Certificate) : Prop :=
  ∃ a, Attestation.ofExtensions c.extensions = .ok a ∧ ¬ a.Delegates

theorem Certificate.endsWalk_iff (c : Certificate) : c.endsWalk = true ↔ c.Refuses := by
  unfold endsWalk Refuses
  cases Attestation.ofExtensions c.extensions with
  | error x => simp
  | ok a => simp [← Attestation.canAttestKeys_iff]

/-- The shortest prefix that ends at a certificate that refuses, and all of the order if none
does. -/
structure IsWalk (order walk : CertificateChain) : Prop where
  isPrefix : walk <+: order
  goesOn : ∀ c ∈ walk.dropLast, ¬ c.Refuses
  ends : walk = order ∨ ∃ c, walk.getLast? = some c ∧ c.Refuses

theorem IsWalk.eq_take {order walk : CertificateChain} (h : IsWalk order walk) :
    order.take walk.length = walk :=
  (List.prefix_iff_eq_take.1 h.isPrefix).symm

theorem IsWalk.getElem? {order walk : CertificateChain} (h : IsWalk order walk) {i : Nat}
    (hi : i < walk.length) : walk[i]? = order[i]? := by
  rw [← h.eq_take, List.getElem?_take_of_lt hi]

theorem IsWalk.goesOn_getElem? {order : CertificateChain} {n i : Nat} {c : Certificate}
    (h : IsWalk order (order.take n)) (hn : n ≤ order.length) (hi : i + 1 < n)
    (hc : order[i]? = some c) : ¬ c.Refuses := by
  refine h.goesOn c (List.mem_iff_getElem?.2 ⟨i, ?_⟩)
  have hlt : i < min (n - 1) n := by omega
  rw [List.dropLast_eq_take, List.length_take, Nat.min_eq_left hn, List.take_take,
    List.getElem?_take_of_lt hlt, hc]

theorem IsWalk.ends_getElem? {order : CertificateChain} {n : Nat} (h : IsWalk order (order.take n))
    (hn : n ≤ order.length) : n = order.length ∨ ∃ c, order[n - 1]? = some c ∧ c.Refuses := by
  rcases h.ends with he | ⟨c, hc, hr⟩
  · left
    have := congrArg List.length he
    rw [List.length_take] at this
    omega
  · right
    refine ⟨c, ?_, hr⟩
    rw [List.getLast?_eq_getElem?, List.length_take, Nat.min_eq_left hn] at hc
    rw [List.getElem?_take] at hc
    split at hc
    · exact hc
    · cases hc

namespace CertificateChain

theorem walked_ne_nil {order : CertificateChain} (h : order ≠ []) : order.walked ≠ [] := by
  cases order with
  | nil => exact absurd rfl h
  | cons c rest => unfold walked; split <;> simp

theorem isWalk_walked (order : CertificateChain) : IsWalk order order.walked := by
  induction order with
  | nil => exact ⟨List.prefix_refl _, by simp [walked], Or.inl rfl⟩
  | cons c rest ih =>
    unfold walked
    split
    · next h =>
      exact ⟨by simp, by simp, Or.inr ⟨c, rfl, c.endsWalk_iff.1 h⟩⟩
    · next h =>
      have hc : ¬ c.Refuses := fun hr => h (c.endsWalk_iff.2 hr)
      cases hw : walked rest with
      | nil =>
        -- an empty walk is one over an empty order
        have hr : rest = [] := by
          by_contra hne
          exact walked_ne_nil hne hw
        exact ⟨by simp, by simp, Or.inl (by rw [hr])⟩
      | cons d walk =>
        rw [hw] at ih
        refine ⟨(List.cons_prefix_cons).2 ⟨rfl, ih.isPrefix⟩, ?_, ?_⟩
        · intro x hx
          rw [List.dropLast_cons_cons, List.mem_cons] at hx
          rcases hx with rfl | hx
          · exact hc
          · exact ih.goesOn x hx
        · rcases ih.ends with he | ⟨x, hx, hr⟩
          · exact Or.inl (by rw [he])
          · exact Or.inr ⟨x, by rw [List.getLast?_cons_cons]; exact hx, hr⟩

theorem rootFirst_ne_nil {chain : CertificateChain} (h : chain ≠ []) : rootFirst chain ≠ [] := by
  unfold rootFirst
  split
  · simpa using h
  · cases hs : sortedByNames? chain with
    | none => simpa using h
    | some sorted =>
      simp only [sortedByNames?] at hs
      split at hs
      · obtain ⟨below, -, rfl⟩ := Option.map_eq_some_iff.1 hs
        simp
      · cases hs

variable {R : Type} [RevocationLookup R] [Cryptography]

theorem findings_getElem? (context : TrustContext R) (time : Instant) (parent : Certificate)
    (walk : CertificateChain) (i : Nat) :
    (findings context time parent walk)[i]? =
      walk[i]?.bind fun c => (parent :: walk)[i]?.map fun p => c.finding p context time := by
  induction walk generalizing parent i with
  | nil => simp [findings]
  | cons c rest ih =>
    cases i with
    | zero => simp [findings]
    | succ i => simpa [findings] using ih c i

theorem findings_length (context : TrustContext R) (time : Instant) (parent : Certificate)
    (walk : CertificateChain) : (findings context time parent walk).length = walk.length := by
  induction walk generalizing parent with
  | nil => rfl
  | cons c rest ih => simp [findings, ih]

/-- What an evaluation is made of: the findings on the walk over an order, where each certificate
is held against the one before it, the root against itself, and only the root is classified. -/
structure Describes (context : TrustContext R) (time : Instant) (order : CertificateChain)
    (e : ChainEvaluation) : Prop where
  nonempty : 0 < e.certificates.length
  fits : e.certificates.length ≤ order.length
  walk : IsWalk order (order.take e.certificates.length)
  finding : ∀ {i : Nat} {f : CertificateFinding}, e.certificates[i]? = some f →
    ∃ c parent, order[i]? = some c ∧ order[i - 1]? = some parent ∧
      f = { c.finding parent context time with
        anchor := if i = 0 then some (context.anchors.classify c.keyInfo) else none }
  available : e.revocationAvailable = RevocationLookup.isAvailable context.revocation

theorem evaluate_eq {chain : CertificateChain} {root : Certificate} {below : CertificateChain}
    (h : (rootFirst chain).walked = root :: below) (context : TrustContext R) (time : Instant) :
    evaluate chain context time = .ok {
      certificates :=
        { root.finding root context time with
            anchor := some (context.anchors.classify root.keyInfo) } ::
          findings context time root below
      revocationAvailable := RevocationLookup.isAvailable context.revocation } := by
  unfold evaluate
  rw [h]

theorem evaluate_cases (chain : CertificateChain) (context : TrustContext R) (time : Instant) :
    (rootFirst chain = [] ∧ evaluate chain context time = .error .emptyChain) ∨
      ∃ e, evaluate chain context time = .ok e ∧ Describes context time (rootFirst chain) e := by
  by_cases h : rootFirst chain = []
  · left
    refine ⟨h, ?_⟩
    unfold evaluate
    rw [h]
    rfl
  · right
    have hw := isWalk_walked (rootFirst chain)
    cases hc : walked (rootFirst chain) with
    | nil => exact absurd hc (walked_ne_nil h)
    | cons root below =>
      rw [hc] at hw
      have hl := findings_length context time root below
      refine ⟨_, evaluate_eq hc context time, by simp, ?_, ?_, ?_, rfl⟩
      · simpa [hl] using hw.isPrefix.length_le
      · rw [List.length_cons, hl, ← List.length_cons, hw.eq_take]
        exact hw
      · intro i f hf
        have hi : i < (root :: below).length := by
          have := (List.getElem?_eq_some_iff.1 hf).1
          simpa [hl] using this
        rw [← hw.getElem? hi, ← hw.getElem? (Nat.lt_of_le_of_lt (Nat.sub_le i 1) hi)]
        cases i with
        | zero => exact ⟨root, root, rfl, rfl, by simpa [Certificate.finding] using hf.symm⟩
        | succ i =>
          rw [List.getElem?_cons_succ, findings_getElem?, Option.bind_eq_some_iff] at hf
          obtain ⟨c, hc, hf⟩ := hf
          obtain ⟨p, hp, rfl⟩ := Option.map_eq_some_iff.1 hf
          exact ⟨c, p, hc, hp, rfl⟩

end CertificateChain

end AttestedKey
