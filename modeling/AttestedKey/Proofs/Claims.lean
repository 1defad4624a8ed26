import AttestedKey.Proofs.Properties
import AttestedKey.Proofs.Values
import AttestedKey.Record.EntityToken

/-! The claims of a token by their entries. Every claim has a value of its own type, and the claims
are no more than a value for some of them; the submodules in turn are no more than a list for some
of two names. Both are read entry by entry, and refused if two entries have the same key. -/

namespace AttestedKey.EntityToken

inductive Submodule
  | software
  | tee
  deriving DecidableEq

namespace Submodule

def name : Submodule → String
  | software => "software"
  | tee => "tee"

theorem name_injective {m m' : Submodule} (h : m.name = m'.name) : m = m' := by
  revert h
  cases m <;> cases m' <;> decide

def ofName? (s : String) : Option Submodule :=
  if s = software.name then some software else if s = tee.name then some tee else none

theorem ofName?_eq_some_iff {s : String} {m : Submodule} : ofName? s = some m ↔ s = m.name := by
  unfold ofName?
  constructor
  · intro h
    split at h
    · next hs =>
      cases h
      exact hs
    · split at h
      · next hs =>
        cases h
        exact hs
      · cases h
  · rintro rfl
    cases m <;> rfl

def ofItem? (e : Cbor.Item × Cbor.Item) : Option (Σ _ : Submodule, AuthorizationList) :=
  e.1.text?.bind fun s => (ofName? s).bind fun m =>
    (AuthorizationList.ofItem e.2).toOption.map fun l => ⟨m, l⟩

end Submodule

namespace Submodules

def ofEntries (es : List (Σ _ : Submodule, AuthorizationList)) : Submodules where
  software := es.dlookup .software
  tee := es.dlookup .tee

def list? (ms : Submodules) : Submodule → Option AuthorizationList
  | .software => ms.software
  | .tee => ms.tee

theorem list?_ofEntries (es : List (Σ _ : Submodule, AuthorizationList)) (m : Submodule) :
    (ofEntries es).list? m = es.dlookup m := by
  cases m <;> rfl

def set (ms : Submodules) (l : AuthorizationList) : Submodule → Submodules
  | .software => { ms with software := some l }
  | .tee => { ms with tee := some l }

theorem ofEntries_append {es : List (Σ _ : Submodule, AuthorizationList)} {m : Submodule}
    (h : m ∉ es.keys) (l : AuthorizationList) :
    ofEntries (es ++ [⟨m, l⟩]) = (ofEntries es).set l m := by
  have hl := Entries.dlookup_append_singleton ⟨m, l⟩ h
  rw [ofEntries, hl, hl]
  cases m <;> simp [set, ofEntries]

/-- An unknown name is refused, and so is a submodule that is there. -/
theorem add_eq (ms : Submodules) (e : Cbor.Item × Cbor.Item) :
    (ms.add e).toOption = e.1.text?.bind fun s => (Submodule.ofName? s).bind fun m =>
      if (ms.list? m).isSome then none else (AuthorizationList.ofItem e.2).toOption.map fun l =>
        ms.set l m := by
  unfold add Cbor.Item.asText
  cases e.1.text? with
  | none => rfl
  | some s =>
    change (if s = "software" then _ else _ : Decoded Submodules).toOption = _
    rw [Option.bind_some]
    by_cases hs : s = "software"
    · rw [if_pos hs,
        show Submodule.ofName? s = some .software from Submodule.ofName?_eq_some_iff.2 hs,
        Option.bind_some, list?]
      cases AuthorizationList.ofItem e.2 <;> split <;> rfl
    · rw [if_neg hs]
      by_cases ht : s = "tee"
      · rw [if_pos ht, show Submodule.ofName? s = some .tee from Submodule.ofName?_eq_some_iff.2 ht,
          Option.bind_some, list?]
        cases AuthorizationList.ofItem e.2 <;> split <;> rfl
      · rw [if_neg ht, show Submodule.ofName? s = none from (if_neg hs).trans (if_neg ht)]
        rfl

theorem toOption_add (es : List (Σ _ : Submodule, AuthorizationList)) (e : Cbor.Item × Cbor.Item) :
    ((ofEntries es).add e).toOption = (Submodule.ofItem? e).bind fun e =>
      if (es.dlookup e.1).isSome then none else some (ofEntries (es ++ [e])) := by
  rw [add_eq, Submodule.ofItem?, Option.bind_assoc]
  congr 1
  funext s
  rw [Option.bind_assoc]
  congr 1
  funext m
  rw [list?_ofEntries, Option.bind_map]
  by_cases hm : (es.dlookup m).isSome
  · cases (AuthorizationList.ofItem e.2).toOption <;> simp [hm]
  · have ha := ofEntries_append fun h => hm (List.dlookup_isSome.2 h)
    cases (AuthorizationList.ofItem e.2).toOption <;> simp [hm, ha]

theorem toOption_foldlM (es : List (Cbor.Item × Cbor.Item)) :
    (es.foldlM add {}).toOption = (es.mapM Submodule.ofItem?).bind fun ms =>
      if ms.NodupKeys then some (ofEntries ms) else none :=
  Entries.toOption_foldlM toOption_add es

end Submodules

namespace Claim

def Value : Claim → Type
  | uniqueId | nonce | verifiedBootKey | verifiedBootHash => Octets
  | submodules => Submodules
  | securityLevel => SecurityLevel
  | bootState => List Bool
  | deviceLocked | officialBuild => Bool
  | attestationVersion | keyMintVersion => Int64

def read (v : Cbor.Item) : (c : Claim) → Decoded c.Value
  | uniqueId => v.asOctets uniqueId.label
  | nonce => v.asOctets nonce.label
  | submodules => v.asMap submodules.label >>= List.foldlM Submodules.add {}
  | securityLevel => v.asInt securityLevel.label >>= SecurityLevel.ofTokenNumber
  | bootState => v.asArray bootState.label >>= List.mapM (·.asBool bootState.label)
  | verifiedBootKey => v.asOctets verifiedBootKey.label
  | deviceLocked => v.asBool deviceLocked.label
  | verifiedBootHash => v.asOctets verifiedBootHash.label
  | attestationVersion => v.asInt attestationVersion.label
  | keyMintVersion => v.asInt keyMintVersion.label
  | officialBuild => v.asBool officialBuild.label

theorem ofKey?_eq_some_iff {key : Int} {c : Claim} : ofKey? key = some c ↔ key = c.key := by
  constructor
  · intro h
    unfold ofKey? at h
    split at h <;> first | (cases h; rfl) | cases h
  · rintro rfl
    exact ofKey?_key c

def ofItem? (e : Cbor.Item × Cbor.Item) : Option (Sigma Value) :=
  e.1.int?.bind fun key => (ofKey? key).bind fun c => (c.read e.2).toOption.map fun x => ⟨c, x⟩

end Claim

namespace Claims

def ofValues (f : (c : Claim) → Option c.Value) : Claims where
  uniqueId := f .uniqueId
  nonce := f .nonce
  submodules := f .submodules
  securityLevel := f .securityLevel
  bootState := f .bootState
  verifiedBootKey := f .verifiedBootKey
  deviceLocked := f .deviceLocked
  verifiedBootHash := f .verifiedBootHash
  attestationVersion := f .attestationVersion
  keyMintVersion := f .keyMintVersion
  officialBuild := f .officialBuild

variable (f : (c : Claim) → Option c.Value)

theorem has_ofValues (c : Claim) : (ofValues f).has c = (f c).isSome := by
  cases c <;> rfl

/-- Setting a claim reads its value and changes nothing else. -/
theorem set_ofValues (c : Claim) (v : Cbor.Item) :
    (ofValues f).set c v = (c.read v).map fun x => ofValues (Function.update f c (some x)) := by
  cases c
  case submodules =>
    change (v.asMap _ >>= fun es => es.foldlM Submodules.add {} >>= fun m => _) =
      (Except.map _ (_ >>= _))
    cases v.asMap Claim.submodules.label <;> rfl
  case securityLevel =>
    change (v.asInt _ >>= fun n => SecurityLevel.ofTokenNumber n >>= fun l => _) =
      (Except.map _ (_ >>= _))
    cases v.asInt Claim.securityLevel.label <;> rfl
  case bootState =>
    change (v.asArray _ >>= fun xs => xs.mapM _ >>= fun flags => _) = (Except.map _ (_ >>= _))
    cases v.asArray Claim.bootState.label <;> rfl
  all_goals rfl

def ofEntries (cs : List (Sigma Claim.Value)) : Claims := ofValues fun c => cs.dlookup c

theorem ofEntries_append {cs : List (Sigma Claim.Value)} {c : Claim} (h : c ∉ cs.keys)
    (x : c.Value) :
    ofEntries (cs ++ [⟨c, x⟩]) = ofValues (Function.update (fun c => cs.dlookup c) c (some x)) :=
  congrArg ofValues (funext fun j => Entries.dlookup_append_singleton ⟨c, x⟩ h j)

theorem toOption_add (cs : List (Sigma Claim.Value)) (e : Cbor.Item × Cbor.Item) :
    ((ofEntries cs).add e).toOption = (Claim.ofItem? e).bind fun e =>
      if (cs.dlookup e.1).isSome then none else some (ofEntries (cs ++ [e])) := by
  rw [add, toOption_bind, Cbor.Item.asNumber, Cbor.Item.toOption_required, Claim.ofItem?,
    Option.bind_assoc]
  congr 1
  funext key
  cases Claim.ofKey? key with
  | none => rfl
  | some c =>
    change (if (ofEntries cs).has c then _
      else (ofEntries cs).set c e.2 : Decoded Claims).toOption = _
    rw [ofEntries, has_ofValues, set_ofValues, Option.bind_some, Option.bind_map]
    cases c.read e.2 with
    | error x => split <;> rfl
    | ok x =>
      by_cases h : (cs.dlookup c).isSome
      · rw [if_pos h]
        exact (if_pos h).symm
      · rw [if_neg h]
        refine Eq.trans ?_ (if_neg h).symm
        rw [ofEntries_append fun hc => h (List.dlookup_isSome.2 hc)]
        rfl

theorem toOption_foldlM (es : List (Cbor.Item × Cbor.Item)) :
    (es.foldlM add {}).toOption = (es.mapM Claim.ofItem?).bind fun cs =>
      if cs.NodupKeys then some (ofEntries cs) else none :=
  Entries.toOption_foldlM toOption_add es

end Claims

end AttestedKey.EntityToken
