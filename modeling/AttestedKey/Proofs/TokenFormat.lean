import AttestedKey.Proofs.Claims
import AttestedKey.Proofs.Values

/-! The format of a token, said of the entries of one map and without a word on how they are read:
which entries make a token (`IsToken`), and what a token with the entries says (`Reports`). An item
is one claim's value if it has the shape and the range of the claim (`Claim.Means`). The reader
comes to the same because no two entries of what it accepts make the same claim, so that looking a
claim up finds the entry, wherever it stands. -/

namespace AttestedKey.EntityToken

open Cbor (Item)

/-- The entries are submodules: known texts, each once, with an authorization list each. -/
structure IsSubmodules (es : List (Item × Item)) : Prop where
  named : ∀ e ∈ es, ∃ m : Submodule, e.1 = .text m.name
  once : es.Pairwise fun e e' => e.1 ≠ e'.1
  lists : ∀ e ∈ es, ∃ l, AuthorizationList.ofItem e.2 = .ok l

/-- Each of the two lists is the one under its name, if there is one. -/
def Submodules.Describes (ms : Submodules) (es : List (Item × Item)) : Prop :=
  ∀ m l, ms.list? m = some l ↔ ∃ v, (.text m.name, v) ∈ es ∧ AuthorizationList.ofItem v = .ok l

def Claim.Means (v : Item) : (c : Claim) → c.Value → Prop
  | uniqueId, x | nonce, x | verifiedBootKey, x | verifiedBootHash, x => v = .bytes x
  | submodules, ms => ∃ es, v = .map es ∧ IsSubmodules es ∧ Submodules.Describes ms es
  | securityLevel, l => v.int? = some (SecurityLevel.tokenNumber l).toInt
  | bootState, flags => v = .array (List.map Item.bool flags)
  | deviceLocked, b | officialBuild, b => v = .bool b
  | attestationVersion, n | keyMintVersion, n => v.int? = some (Int64.toInt n)

def Says (es : List (Item × Item)) (c : Claim) (v : Item) : Prop :=
  ∃ k, (k, v) ∈ es ∧ k.int? = some c.key

/-- The entries make the claim, with the value. -/
def Holds (es : List (Item × Item)) (c : Claim) (x : c.Value) : Prop :=
  ∃ v, Says es c v ∧ c.Means v x

/-- The entries are claims, each known and made once, and each with a value that fits. -/
structure AreClaims (es : List (Item × Item)) : Prop where
  known : ∀ e ∈ es, ∃ c : Claim, e.1.int? = some c.key
  once : es.Pairwise fun e e' => e.1.int? ≠ e'.1.int?
  fits : ∀ c v, Says es c v → ∃ x, c.Means v x

structure IsToken (es : List (Item × Item)) : Prop extends AreClaims es where
  nonce : ∃ v, Says es .nonce v
  securityLevel : ∃ v, Says es .securityLevel v
  /-- Five flags, the last off and the first one of the next three, and it is on for an official
  build. -/
  bootState : ∀ v, Says es .bootState v → ∃ first a b c : Bool,
    v = .array [.bool first, .bool a, .bool b, .bool c, .bool false] ∧
      (first = a ∨ first = b ∨ first = c) ∧
      (Says es .officialBuild (.bool true) → first = true)
  verifiedBootKey : ∀ v, Says es .bootState v → ∃ k, Says es .verifiedBootKey k
  deviceLocked : ∀ v, Says es .bootState v → ∃ l, Says es .deviceLocked l

def SubmoduleSays (es : List (Item × Item)) (m : Submodule) (v : Item) : Prop :=
  ∃ ms, Says es .submodules (.map ms) ∧ (.text m.name, v) ∈ ms

def list (t : EntityToken) : Submodule → AuthorizationList
  | .software => t.softwareEnforced
  | .tee => t.hardwareEnforced

structure ReportsRoot (es : List (Item × Item)) (r : RootOfTrust) : Prop where
  key : Holds es .verifiedBootKey r.verifiedBootKey
  locked : Holds es .deviceLocked r.deviceLocked
  hash : ∀ h, r.verifiedBootHash = some h ↔ Holds es .verifiedBootHash h
  verified : r.verifiedBootState = .verified ↔ Says es .officialBuild (.bool true)
  unofficial : ¬ Says es .officialBuild (.bool true) →
    ∃ first rest, Holds es .bootState (first :: rest) ∧
    r.verifiedBootState = if first then .selfSigned else .unverified

/-- The token says what the entries say, and no more. -/
structure Reports (es : List (Item × Item)) (t : EntityToken) : Prop where
  attestationVersion : ∀ n, t.attestationVersion = some n ↔ Holds es .attestationVersion n
  keyMintVersion : ∀ n, t.keyMintVersion = some n ↔ Holds es .keyMintVersion n
  securityLevel : Holds es .securityLevel t.keyMintSecurityLevel
  challenge : Holds es .nonce t.challenge
  uniqueId : ∀ x, t.uniqueId = some x ↔ Holds es .uniqueId x
  list : ∀ m v, SubmoduleSays es m v → AuthorizationList.ofItem v = .ok (t.list m)
  noList : ∀ m, (∀ v, ¬ SubmoduleSays es m v) → t.list m = {}
  bootState : ∀ flags, t.bootState = some flags ↔ Holds es .bootState flags
  officialBuild : t.officialBuild = true ↔ Says es .officialBuild (.bool true)
  root : t.rootOfTrust.isSome ↔ ∃ v, Says es .bootState v
  rootOfTrust : ∀ r, t.rootOfTrust = some r → ReportsRoot es r

/-! ### Submodules -/

namespace Submodule

theorem ofItem?_eq_some_iff {e : Item × Item} {m : Submodule} {l : AuthorizationList} :
    ofItem? e = some ⟨m, l⟩ ↔ e.1 = .text m.name ∧ AuthorizationList.ofItem e.2 = .ok l := by
  unfold ofItem?
  simp only [Option.bind_eq_some_iff, Item.text?_eq_some_iff, ofName?_eq_some_iff,
    Option.map_eq_some_iff, toOption_eq_some_iff]
  constructor
  · rintro ⟨s, hs, m', rfl, l', hl, h⟩
    cases h
    exact ⟨hs, hl⟩
  · rintro ⟨hs, hl⟩
    exact ⟨_, hs, m, rfl, l, hl, rfl⟩

theorem isSome_ofItem?_iff {e : Item × Item} :
    (ofItem? e).isSome ↔
    (∃ m : Submodule, e.1 = .text m.name) ∧ ∃ l, AuthorizationList.ofItem e.2 = .ok l := by
  rw [Option.isSome_iff_exists]
  constructor
  · rintro ⟨⟨m, l⟩, h⟩
    obtain ⟨hm, hl⟩ := ofItem?_eq_some_iff.1 h
    exact ⟨⟨m, hm⟩, l, hl⟩
  · rintro ⟨⟨m, hm⟩, l, hl⟩
    exact ⟨⟨m, l⟩, ofItem?_eq_some_iff.2 ⟨hm, hl⟩⟩

theorem isSubmodules_iff {es : List (Item × Item)} :
    IsSubmodules es ↔ ∃ ms, es.mapM ofItem? = some ms ∧ ms.NodupKeys := by
  have hkey : ∀ (b b' : Item × Item) (e e' : Σ _ : Submodule, AuthorizationList),
    ofItem? b = some e →
      ofItem? b' = some e' → (e.1 = e'.1 ↔ b.1 = b'.1) := by
    rintro b b' ⟨m, l⟩ ⟨m', l'⟩ he he'
    rw [(ofItem?_eq_some_iff.1 he).1, (ofItem?_eq_some_iff.1 he').1]
    exact ⟨fun h => by rw [show m = m' from h], fun h => name_injective (by simpa using h)⟩
  rw [Entries.exists_nodupKeys_iff hkey]
  constructor
  · intro h
    exact ⟨fun e he => isSome_ofItem?_iff.2 ⟨h.named e he, h.lists e he⟩, h.once⟩
  · rintro ⟨hall, honce⟩
    exact ⟨fun e he => (isSome_ofItem?_iff.1 (hall e he)).1, honce,
      fun e he => (isSome_ofItem?_iff.1 (hall e he)).2⟩

end Submodule

namespace Submodules

theorem describes_iff {es : List (Item × Item)} {ms : List (Σ _ : Submodule, AuthorizationList)}
    (hread : es.mapM Submodule.ofItem? = some ms) (hn : ms.NodupKeys) {s : Submodules} :
    s.Describes es ↔ s = ofEntries ms := by
  have hfound : ∀ m l, (ofEntries ms).list? m = some l ↔
      ∃ v, (Item.text m.name, v) ∈ es ∧ AuthorizationList.ofItem v = .ok l := by
    intro m l
    rw [list?_ofEntries, Entries.dlookup_eq_some_iff hread hn]
    constructor
    · rintro ⟨⟨k, v⟩, hmem, he⟩
      obtain ⟨rfl, hl⟩ := Submodule.ofItem?_eq_some_iff.1 he
      exact ⟨v, hmem, hl⟩
    · rintro ⟨v, hmem, hl⟩
      exact ⟨_, hmem, Submodule.ofItem?_eq_some_iff.2 ⟨rfl, hl⟩⟩
  constructor
  · intro h
    have hlist : ∀ m, s.list? m = (ofEntries ms).list? m := fun m =>
      Option.ext fun l => (h m l).trans (hfound m l).symm
    obtain ⟨a, b⟩ := s
    rw [ofEntries, Submodules.mk.injEq]
    exact ⟨hlist .software, hlist .tee⟩
  · rintro rfl
    exact hfound

theorem foldlM_add_eq_ok_iff {es : List (Item × Item)} {s : Submodules} :
    es.foldlM add {} = .ok s ↔ IsSubmodules es ∧ s.Describes es := by
  rw [← toOption_eq_some_iff, toOption_foldlM, Option.bind_eq_some_iff]
  constructor
  · rintro ⟨ms, hread, h⟩
    split at h
    · next hn =>
      exact ⟨Submodule.isSubmodules_iff.2 ⟨ms, hread, hn⟩,
        (describes_iff hread hn).2 (Option.some.inj h).symm⟩
    · cases h
  · rintro ⟨hes, hs⟩
    obtain ⟨ms, hread, hn⟩ := Submodule.isSubmodules_iff.1 hes
    exact ⟨ms, hread, by rw [if_pos hn, (describes_iff hread hn).1 hs]⟩

end Submodules

/-! ### Claims -/

theorem ofTokenNumber_eq_ok_iff {n : Int64} {l : SecurityLevel} :
    SecurityLevel.ofTokenNumber n = .ok l ↔ n = l.tokenNumber := by
  constructor
  · intro h
    unfold SecurityLevel.ofTokenNumber at h
    split at h
    · next hn => cases h; exact hn
    · split at h
      · next hn => cases h; exact hn
      · split at h
        · next hn => cases h; exact hn
        · cases h
  · rintro rfl
    exact SecurityLevel.ofTokenNumber_tokenNumber l

namespace Claim

theorem read_eq_ok_iff {v : Item} {c : Claim} {x : c.Value} : c.read v = .ok x ↔ c.Means v x := by
  cases c
  case submodules =>
    exact bind_eq_ok_iff.trans (exists_congr fun es =>
      and_congr Item.asMap_eq_ok_iff Submodules.foldlM_add_eq_ok_iff)
  case securityLevel =>
    refine bind_eq_ok_iff.trans ⟨?_,
      fun h => ⟨_, Item.asInt_eq_ok_iff.2 h, ofTokenNumber_eq_ok_iff.2 rfl⟩⟩
    rintro ⟨n, hn, hl⟩
    obtain rfl := ofTokenNumber_eq_ok_iff.1 hl
    exact Item.asInt_eq_ok_iff.1 hn
  case bootState =>
    refine bind_eq_ok_iff.trans ⟨?_,
      fun h => ⟨_, Item.asArray_eq_ok_iff.2 h, Item.mapM_asBool_eq_ok_iff.2 rfl⟩⟩
    rintro ⟨xs, hxs, hb⟩
    obtain rfl := Item.mapM_asBool_eq_ok_iff.1 hb
    exact Item.asArray_eq_ok_iff.1 hxs
  case deviceLocked | officialBuild => exact Item.asBool_eq_ok_iff
  case attestationVersion | keyMintVersion => exact Item.asInt_eq_ok_iff
  all_goals exact Item.asOctets_eq_ok_iff

theorem ofItem?_eq_some_iff {e : Item × Item} {c : Claim} {x : c.Value} :
    ofItem? e = some ⟨c, x⟩ ↔ e.1.int? = some c.key ∧ c.Means e.2 x := by
  unfold ofItem?
  simp only [Option.bind_eq_some_iff, ofKey?_eq_some_iff, Option.map_eq_some_iff,
    toOption_eq_some_iff, read_eq_ok_iff]
  constructor
  · rintro ⟨key, hkey, c', rfl, x', hx, h⟩
    cases h
    exact ⟨hkey, hx⟩
  · rintro ⟨hkey, hx⟩
    exact ⟨_, hkey, c, rfl, x, hx, rfl⟩

theorem isSome_ofItem?_iff {e : Item × Item} :
    (ofItem? e).isSome ↔ ∃ c : Claim, e.1.int? = some c.key ∧ ∃ x, c.Means e.2 x := by
  rw [Option.isSome_iff_exists]
  constructor
  · rintro ⟨⟨c, x⟩, h⟩
    obtain ⟨hc, hx⟩ := ofItem?_eq_some_iff.1 h
    exact ⟨c, hc, x, hx⟩
  · rintro ⟨c, hc, x, hx⟩
    exact ⟨⟨c, x⟩, ofItem?_eq_some_iff.2 ⟨hc, hx⟩⟩

theorem key_injective {c c' : Claim} (h : c.key = c'.key) : c = c' := by
  have hc := ofKey?_key c
  rw [h, ofKey?_key] at hc
  exact (Option.some.inj hc).symm

end Claim

namespace Claims

theorem areClaims_iff {es : List (Item × Item)} :
    AreClaims es ↔ ∃ cs, es.mapM Claim.ofItem? = some cs ∧ cs.NodupKeys := by
  have hkey : ∀ (b b' : Item × Item) (e e' : Sigma Claim.Value), Claim.ofItem? b = some e →
      Claim.ofItem? b' = some e' → (e.1 = e'.1 ↔ b.1.int? = b'.1.int?) := by
    rintro b b' ⟨c, x⟩ ⟨c', x'⟩ he he'
    rw [(Claim.ofItem?_eq_some_iff.1 he).1, (Claim.ofItem?_eq_some_iff.1 he').1]
    exact ⟨fun h => by rw [show c = c' from h], fun h => Claim.key_injective (Option.some.inj h)⟩
  rw [Entries.exists_nodupKeys_iff hkey]
  constructor
  · intro h
    refine ⟨fun e he => ?_, h.once⟩
    obtain ⟨c, hc⟩ := h.known e he
    exact Claim.isSome_ofItem?_iff.2 ⟨c, hc, h.fits c e.2 ⟨e.1, he, hc⟩⟩
  · rintro ⟨hall, honce⟩
    refine ⟨fun e he => ?_, honce, fun c v ⟨k, hmem, hk⟩ => ?_⟩
    · obtain ⟨c, hc, -⟩ := Claim.isSome_ofItem?_iff.1 (hall e he)
      exact ⟨c, hc⟩
    · obtain ⟨c', hc', x, hx⟩ := Claim.isSome_ofItem?_iff.1 (hall (k, v) hmem)
      obtain rfl : c = c' := Claim.key_injective (Option.some.inj (hk.symm.trans hc'))
      exact ⟨x, hx⟩

/-- What is found among the claims is what the entries say. -/
theorem dlookup_eq_some_iff {es : List (Item × Item)} {cs : List (Sigma Claim.Value)}
    (hread : es.mapM Claim.ofItem? = some cs) (hn : cs.NodupKeys) {c : Claim} {x : c.Value} :
    cs.dlookup c = some x ↔ Holds es c x := by
  rw [Entries.dlookup_eq_some_iff hread hn]
  constructor
  · rintro ⟨⟨k, v⟩, hmem, he⟩
    obtain ⟨hk, hx⟩ := Claim.ofItem?_eq_some_iff.1 he
    exact ⟨v, ⟨k, hmem, hk⟩, hx⟩
  · rintro ⟨v, ⟨k, hmem, hk⟩, hx⟩
    exact ⟨(k, v), hmem, Claim.ofItem?_eq_some_iff.2 ⟨hk, hx⟩⟩

theorem foldlM_add_eq_ok_iff {es : List (Item × Item)} {cs : Claims} :
    es.foldlM add {} = .ok cs ↔
      AreClaims es ∧ ∃ f : (c : Claim) → Option c.Value, cs = ofValues f ∧ ∀ c x, f c = some x ↔
        Holds es c x := by
  rw [← toOption_eq_some_iff, toOption_foldlM, Option.bind_eq_some_iff]
  constructor
  · rintro ⟨more, hread, h⟩
    split at h
    · next hn =>
      exact ⟨areClaims_iff.2 ⟨more, hread, hn⟩, _, (Option.some.inj h).symm,
        fun c x => dlookup_eq_some_iff hread hn⟩
    · cases h
  · rintro ⟨hes, f, rfl, hf⟩
    obtain ⟨more, hread, hn⟩ := areClaims_iff.1 hes
    have hsame : (fun c => more.dlookup c) = f :=
      funext fun c => Option.ext fun x => (dlookup_eq_some_iff hread hn).trans (hf c x).symm
    exact ⟨more, hread, by rw [if_pos hn, ofEntries, hsame]⟩

theorem required_eq_ok_iff {α : Type} {context : String} {c : Claim} {v : Option α} {a : α} :
    required context c v = .ok a ↔ v = some a := by
  cases v <;> simp [required]

end Claims

/-! ### The root of trust and the token -/

def stateOf (first official : Bool) : VerifiedBootState :=
  if official then .verified else if first then .selfSigned else .unverified

theorem stateOf_eq_verified_iff {first official : Bool} :
    stateOf first official = .verified ↔ official = true := by
  cases official <;> cases first <;> simp [stateOf]

theorem bootState_eq_ok_iff {flags : List Bool} {official : Bool} {s : VerifiedBootState} :
    AttestedKey.bootState flags official = .ok s ↔
      ∃ first a b c : Bool, flags = [first, a, b, c, false] ∧
      (first = a ∨ first = b ∨ first = c) ∧ (official = true → first = true) ∧
      s = stateOf first official := by
  constructor
  · intro h
    unfold AttestedKey.bootState at h
    split at h
    · next first a b c disabled =>
      refine ⟨first, a, b, c, ?_⟩
      revert h
      cases disabled <;> cases official <;> cases first <;> cases a <;> cases b <;> cases c <;>
        simp [stateOf, eq_comm]
    · cases h
  · rintro ⟨first, a, b, c, rfl, hagree, hofficial, rfl⟩
    revert hagree hofficial
    cases official <;> cases first <;> cases a <;> cases b <;> cases c <;>
      simp [AttestedKey.bootState, stateOf]

namespace Claims

variable {cs : Claims}

theorem rootOfTrust_eq_ok_iff {flags : List Bool} (h : cs.bootState = some flags)
    {root : Option RootOfTrust} :
    cs.rootOfTrust = .ok root ↔
      ∃ s key locked, AttestedKey.bootState flags (cs.officialBuild.getD false) = .ok s ∧
      cs.verifiedBootKey = some key ∧ cs.deviceLocked = some locked ∧
      root = some ⟨key, locked, s, cs.verifiedBootHash⟩ := by
  rw [rootOfTrust, h]
  simp only [bind_eq_ok_iff, required_eq_ok_iff]
  constructor
  · rintro ⟨s, hs, key, hkey, locked, hlocked, hroot⟩
    cases hroot
    exact ⟨s, key, locked, hs, hkey, hlocked, rfl⟩
  · rintro ⟨s, key, locked, hs, hkey, hlocked, rfl⟩
    exact ⟨s, hs, key, hkey, locked, hlocked, rfl⟩

end Claims

theorem ofClaims_eq_ok_iff {cs : Claims} {t : EntityToken} :
    ofClaims cs = .ok t ↔
      ∃ nonce level root, cs.nonce = some nonce ∧ cs.securityLevel = some level ∧
      cs.rootOfTrust = .ok root ∧ t = {
        attestationVersion := cs.attestationVersion
        keyMintVersion := cs.keyMintVersion
        keyMintSecurityLevel := level
        challenge := nonce
        uniqueId := cs.uniqueId
        softwareEnforced := (cs.submodules.getD {}).software.getD {}
        hardwareEnforced := (cs.submodules.getD {}).tee.getD {}
        bootState := cs.bootState
        officialBuild := cs.officialBuild.getD false
        rootOfTrust := root } := by
  unfold ofClaims
  simp only [bind_eq_ok_iff, Claims.required_eq_ok_iff]
  constructor
  · rintro ⟨nonce, hnonce, level, hlevel, root, hroot, h⟩
    cases h
    exact ⟨nonce, level, root, hnonce, hlevel, hroot, rfl⟩
  · rintro ⟨nonce, level, root, hnonce, hlevel, hroot, rfl⟩
    exact ⟨nonce, hnonce, level, hlevel, root, hroot, rfl⟩

theorem decode_eq_ok_iff {bs : Octets} {t : EntityToken} :
    decode bs = .ok t ↔
      ∃ es cs, Cbor.read bs = some (.map es, []) ∧ es.foldlM Claims.add {} = .ok cs ∧
      ofClaims cs = .ok t := by
  unfold decode Item.ofOctets
  simp only [bind_eq_ok_iff, readWhole_eq_ok_iff, Item.asMap_eq_ok_iff]
  constructor
  · rintro ⟨x, hx, es, rfl, cs, hcs, ht⟩
    exact ⟨es, cs, hx, hcs, ht⟩
  · rintro ⟨es, cs, hx, hcs, ht⟩
    exact ⟨_, hx, es, rfl, cs, hcs, ht⟩

section

variable {es : List (Item × Item)} {f : (c : Claim) → Option c.Value} (hes : AreClaims es)
  (hf : ∀ c x, f c = some x ↔ Holds es c x)

include hf

theorem officialBuild_iff :
    (f .officialBuild).getD false = true ↔ Says es .officialBuild (.bool true) := by
  have htrue : f .officialBuild = some true ↔ Says es .officialBuild (.bool true) :=
    (hf .officialBuild true).trans ⟨fun ⟨_, hv, hx⟩ => (show _ = Item.bool true from hx) ▸ hv,
      fun h => ⟨_, h, rfl⟩⟩
  rw [← htrue]
  cases f .officialBuild with
  | none =>
    exact ⟨fun h => absurd h Bool.false_ne_true, fun h => absurd h.symm (Option.some_ne_none _)⟩
  | some b => exact ⟨congrArg some, Option.some.inj⟩

theorem reportsRoot_of_rootOfTrust {r : RootOfTrust}
    (h : (Claims.ofValues f).rootOfTrust = .ok (some r)) : ReportsRoot es r := by
  cases hflags : f .bootState with
  | none =>
    rw [Claims.rootOfTrust, show (Claims.ofValues f).bootState = none from hflags] at h
    cases h
  | some flags =>
    obtain ⟨s, key, locked, hs, hkey, hlocked, hr⟩ := (Claims.rootOfTrust_eq_ok_iff hflags).1 h
    cases hr
    obtain ⟨first, a, b, c, hfive, -, -, rfl⟩ := bootState_eq_ok_iff.1 hs
    have hofficial : (f .officialBuild).getD false = true ↔ Says es .officialBuild (.bool true) :=
      officialBuild_iff hf
    refine ⟨(hf _ _).1 hkey, (hf _ _).1 hlocked, fun x => hf .verifiedBootHash x, ?_, ?_⟩
    · exact stateOf_eq_verified_iff.trans hofficial
    · intro hno
      have hfalse : (f .officialBuild).getD false = false :=
        Bool.eq_false_iff.2 fun ho => hno (hofficial.1 ho)
      refine ⟨first, _, (hf .bootState _).1 (hflags.trans (congrArg some hfive)), ?_⟩
      change stateOf first ((f .officialBuild).getD false) = _
      rw [hfalse]
      rfl

include hes

theorem exists_says_iff (c : Claim) : (∃ v, Says es c v) ↔ ∃ x, f c = some x := by
  constructor
  · rintro ⟨v, hv⟩
    obtain ⟨x, hx⟩ := hes.fits c v hv
    exact ⟨x, (hf c x).2 ⟨v, hv, hx⟩⟩
  · rintro ⟨x, hx⟩
    obtain ⟨v, hv, -⟩ := (hf c x).1 hx
    exact ⟨v, hv⟩

theorem isToken_of_ofClaims {t : EntityToken} (h : ofClaims (.ofValues f) = .ok t) :
    IsToken es := by
  obtain ⟨nonce, level, root, hnonce, hlevel, hroot, -⟩ := ofClaims_eq_ok_iff.1 h
  have hboot : ∀ v, Says es .bootState v →
    ∃ flags s key locked, v = .array (List.map Item.bool flags) ∧
      AttestedKey.bootState flags ((f .officialBuild).getD false) = .ok s ∧
      f .verifiedBootKey = some key ∧ f .deviceLocked = some locked := by
    intro v hv
    obtain ⟨flags, hflags⟩ := hes.fits .bootState v hv
    obtain ⟨s, key, locked, hs, hkey, hlocked, -⟩ :=
      (Claims.rootOfTrust_eq_ok_iff ((hf .bootState flags).2 ⟨v, hv, hflags⟩)).1 hroot
    exact ⟨flags, s, key, locked, hflags, hs, hkey, hlocked⟩
  refine ⟨hes, (exists_says_iff hes hf _).2 ⟨_, hnonce⟩, (exists_says_iff hes hf _).2 ⟨_, hlevel⟩,
    ?_, ?_, ?_⟩
  · intro v hv
    obtain ⟨flags, s, -, -, rfl, hs, -, -⟩ := hboot v hv
    obtain ⟨first, a, b, c, rfl, hagree, hofficial, -⟩ := bootState_eq_ok_iff.1 hs
    exact ⟨first, a, b, c, rfl, hagree, fun ho => hofficial ((officialBuild_iff hf).2 ho)⟩
  · intro v hv
    obtain ⟨-, -, key, -, -, -, hkey, -⟩ := hboot v hv
    exact (exists_says_iff hes hf _).2 ⟨key, hkey⟩
  · intro v hv
    obtain ⟨-, -, -, locked, -, -, -, hlocked⟩ := hboot v hv
    exact (exists_says_iff hes hf _).2 ⟨locked, hlocked⟩

theorem exists_rootOfTrust (h : IsToken es) :
    ∃ root, (Claims.ofValues f).rootOfTrust = .ok root := by
  -- without flags there is no root, and nothing to ask of the other claims
  cases hflags : f .bootState with
  | none =>
    exact ⟨none, by rw [Claims.rootOfTrust, show (Claims.ofValues f).bootState = none from hflags]⟩
  | some flags =>
    obtain ⟨v, hv, hmeans⟩ := (hf .bootState flags).1 hflags
    obtain ⟨first, a, b, c, hshape, hagree, hofficial⟩ := h.bootState v hv
    have heq : List.map Item.bool flags = List.map Item.bool [first, a, b, c, false] :=
      Item.array.inj (Eq.trans (Eq.symm hmeans) hshape)
    have hfive := List.map_injective_iff.2 (fun _ _ => Item.bool.inj) heq
    obtain ⟨key, hkey⟩ := (exists_says_iff hes hf _).1 (h.verifiedBootKey v hv)
    obtain ⟨locked, hlocked⟩ := (exists_says_iff hes hf _).1 (h.deviceLocked v hv)
    exact ⟨_, (Claims.rootOfTrust_eq_ok_iff hflags).2 ⟨_, key, locked,
      bootState_eq_ok_iff.2 ⟨first, a, b, c, hfive, hagree,
        fun ho => hofficial ((officialBuild_iff hf).1 ho), rfl⟩, hkey, hlocked, rfl⟩⟩

theorem exists_ofClaims_iff : (∃ t, ofClaims (.ofValues f) = .ok t) ↔ IsToken es := by
  constructor
  · rintro ⟨t, h⟩
    exact isToken_of_ofClaims hes hf h
  · intro h
    obtain ⟨nonce, hnonce⟩ := (exists_says_iff hes hf _).1 h.nonce
    obtain ⟨level, hlevel⟩ := (exists_says_iff hes hf _).1 h.securityLevel
    obtain ⟨root, hroot⟩ := exists_rootOfTrust hes hf h
    exact ⟨_, ofClaims_eq_ok_iff.2 ⟨nonce, level, root, hnonce, hlevel, hroot, rfl⟩⟩

theorem reports_of_ofClaims {t : EntityToken} (h : ofClaims (.ofValues f) = .ok t) :
    Reports es t := by
  obtain ⟨nonce, level, root, hnonce, hlevel, hroot, ht⟩ := ofClaims_eq_ok_iff.1 h
  have hlist : ∀ m, t.list m =
    (((f .submodules).getD ({} : Submodules) : Submodules).list? m).getD {} := by
    intro m
    rw [ht]
    cases m <;> rfl
  constructor
  case attestationVersion => exact fun n => by rw [ht]; exact hf .attestationVersion n
  case keyMintVersion => exact fun n => by rw [ht]; exact hf .keyMintVersion n
  case securityLevel => rw [ht]; exact (hf _ _).1 hlevel
  case challenge => rw [ht]; exact (hf _ _).1 hnonce
  case uniqueId => exact fun x => by rw [ht]; exact hf .uniqueId x
  case bootState => exact fun x => by rw [ht]; exact hf .bootState x
  case officialBuild => rw [ht]; exact officialBuild_iff hf
  case list =>
    rintro m v ⟨ms, hms, hv⟩
    obtain ⟨x, es', hes', hsub, hx⟩ := hes.fits .submodules _ hms
    obtain rfl := Item.map.inj hes'
    obtain ⟨l, hl⟩ := hsub.lists _ hv
    rw [hl, hlist, (hf .submodules x).2 ⟨_, hms, ms, rfl, hsub, hx⟩]
    exact congrArg (Except.ok ∘ (Option.getD · {})) ((hx m l).2 ⟨v, hv, hl⟩).symm
  case noList =>
    intro m hno
    rw [hlist]
    cases hx : f .submodules with
    | none => cases m <;> rfl
    | some x =>
      obtain ⟨-, hv, ms, rfl, -, hms⟩ := (hf .submodules x).1 hx
      have hnone : Submodules.list? x m = none := by
        rw [Option.eq_none_iff_forall_ne_some]
        intro l hl
        obtain ⟨v, hmem, -⟩ := (hms m l).1 hl
        exact hno v ⟨ms, hv, hmem⟩
      exact congrArg (Option.getD · {}) hnone
  case root =>
    rw [ht, exists_says_iff hes hf]
    cases hflags : f .bootState with
    | none =>
      rw [Claims.rootOfTrust, show (Claims.ofValues f).bootState = none from hflags] at hroot
      cases hroot
      simp
    | some flags =>
      obtain ⟨s, key, locked, -, -, -, rfl⟩ := (Claims.rootOfTrust_eq_ok_iff hflags).1 hroot
      simp
  case rootOfTrust =>
    intro r hr
    rw [ht] at hr
    exact reportsRoot_of_rootOfTrust hf (hroot.trans (congrArg Except.ok hr))

end

end AttestedKey.EntityToken
