import AttestedKey.Proofs.Entries
import AttestedKey.Record.AuthorizationList

/-! An authorization list by its entries. Every property has one of nine kinds of value, and a list
is no more than a value for some of the properties, and perhaps a security level. Both wire forms
are read entry by entry, each entry by itself, and refused if two entries are about the same
property: `toOption_foldlM_add` says so for both, and with it what a list holds no longer depends
on the order of its entries. -/

namespace AttestedKey

inductive PropertyKind
  | int | uint | ints | date | flag | octets | text | rootOfTrust | applicationId
  deriving DecidableEq

def PropertyKind.Value : PropertyKind → Type
  | int => Int64
  | uint => UInt64
  | ints => NumberSet
  | date => Instant
  | flag => Unit
  | octets => Octets
  | text => String
  | rootOfTrust => RootOfTrust
  | applicationId => ApplicationId

def Tag.kind : Tag → PropertyKind
  | purpose | digest | padding | mgfDigest => .ints
  | algorithm | keySize | ecCurve | usageCountLimit | userAuthType | authTimeout | origin
  | osVersion | osPatchLevel | vendorPatchLevel | bootPatchLevel => .int
  | rsaPublicExponent => .uint
  | activeDateTime | originationExpireDateTime | usageExpireDateTime | creationDateTime => .date
  | rollbackResistance | earlyBootOnly | noAuthRequired | allowWhileOnBody
  | trustedUserPresenceRequired | trustedConfirmationRequired | unlockedDeviceRequired
  | allApplications | rollbackResistant | deviceUniqueAttestation => .flag
  | applicationId | moduleHash => .octets
  | rootOfTrust => .rootOfTrust
  | attestationApplicationId => .applicationId
  | attestationIdBrand | attestationIdDevice | attestationIdProduct | attestationIdSerial
  | attestationIdImei | attestationIdMeid | attestationIdManufacturer | attestationIdModel
  | attestationIdSecondImei => .text

/-- Reads a value of the kind; that of a flag is not looked at. -/
def PropertyKind.read {α : Type} [PropertyValue α] (what : String) (v : α) :
    (k : PropertyKind) → Decoded k.Value
  | int => PropertyValue.int what v
  | uint => PropertyValue.uint what v
  | ints => PropertyValue.ints what v
  | date => PropertyValue.date what v
  | flag => .ok ()
  | octets => PropertyValue.octets what v
  | text => PropertyValue.text what v
  | rootOfTrust => PropertyValue.rootOfTrust what v
  | applicationId => PropertyValue.applicationId what v

namespace AuthorizationList

def flag? (b : Bool) : Option Unit := if b then some () else none

def isSet (v : Option Unit) : Bool := v.isSome

theorem isSet_flag? (b : Bool) : isSet (flag? b) = b := by cases b <;> rfl

def ofValues (level : Option SecurityLevel) (f : (t : Tag) → Option t.kind.Value) :
    AuthorizationList where
  securityLevel := level
  purposes := f .purpose
  algorithm := f .algorithm
  keySize := f .keySize
  digests := f .digest
  paddings := f .padding
  ecCurve := f .ecCurve
  rsaPublicExponent := f .rsaPublicExponent
  mgfDigests := f .mgfDigest
  rollbackResistance := isSet (f .rollbackResistance)
  earlyBootOnly := isSet (f .earlyBootOnly)
  activeDateTime := f .activeDateTime
  originationExpireDateTime := f .originationExpireDateTime
  usageExpireDateTime := f .usageExpireDateTime
  usageCountLimit := f .usageCountLimit
  noAuthRequired := isSet (f .noAuthRequired)
  userAuthType := f .userAuthType
  authTimeout := f .authTimeout
  allowWhileOnBody := isSet (f .allowWhileOnBody)
  trustedUserPresenceRequired := isSet (f .trustedUserPresenceRequired)
  trustedConfirmationRequired := isSet (f .trustedConfirmationRequired)
  unlockedDeviceRequired := isSet (f .unlockedDeviceRequired)
  allApplications := isSet (f .allApplications)
  applicationId := f .applicationId
  creationDateTime := f .creationDateTime
  origin := f .origin
  rollbackResistant := isSet (f .rollbackResistant)
  rootOfTrust := f .rootOfTrust
  osVersion := f .osVersion
  osPatchLevel := f .osPatchLevel
  attestationApplicationId := f .attestationApplicationId
  brand := f .attestationIdBrand
  device := f .attestationIdDevice
  product := f .attestationIdProduct
  serial := f .attestationIdSerial
  imei := f .attestationIdImei
  meid := f .attestationIdMeid
  manufacturer := f .attestationIdManufacturer
  model := f .attestationIdModel
  vendorPatchLevel := f .vendorPatchLevel
  bootPatchLevel := f .bootPatchLevel
  deviceUniqueAttestation := isSet (f .deviceUniqueAttestation)
  secondImei := f .attestationIdSecondImei
  moduleHash := f .moduleHash

/-- What the list says of a property. -/
def value? (l : AuthorizationList) : (t : Tag) → Option t.kind.Value
  | .purpose => l.purposes
  | .algorithm => l.algorithm
  | .keySize => l.keySize
  | .digest => l.digests
  | .padding => l.paddings
  | .ecCurve => l.ecCurve
  | .rsaPublicExponent => l.rsaPublicExponent
  | .mgfDigest => l.mgfDigests
  | .rollbackResistance => flag? l.rollbackResistance
  | .earlyBootOnly => flag? l.earlyBootOnly
  | .activeDateTime => l.activeDateTime
  | .originationExpireDateTime => l.originationExpireDateTime
  | .usageExpireDateTime => l.usageExpireDateTime
  | .usageCountLimit => l.usageCountLimit
  | .noAuthRequired => flag? l.noAuthRequired
  | .userAuthType => l.userAuthType
  | .authTimeout => l.authTimeout
  | .allowWhileOnBody => flag? l.allowWhileOnBody
  | .trustedUserPresenceRequired => flag? l.trustedUserPresenceRequired
  | .trustedConfirmationRequired => flag? l.trustedConfirmationRequired
  | .unlockedDeviceRequired => flag? l.unlockedDeviceRequired
  | .allApplications => flag? l.allApplications
  | .applicationId => l.applicationId
  | .creationDateTime => l.creationDateTime
  | .origin => l.origin
  | .rollbackResistant => flag? l.rollbackResistant
  | .rootOfTrust => l.rootOfTrust
  | .osVersion => l.osVersion
  | .osPatchLevel => l.osPatchLevel
  | .attestationApplicationId => l.attestationApplicationId
  | .attestationIdBrand => l.brand
  | .attestationIdDevice => l.device
  | .attestationIdProduct => l.product
  | .attestationIdSerial => l.serial
  | .attestationIdImei => l.imei
  | .attestationIdMeid => l.meid
  | .attestationIdManufacturer => l.manufacturer
  | .attestationIdModel => l.model
  | .vendorPatchLevel => l.vendorPatchLevel
  | .bootPatchLevel => l.bootPatchLevel
  | .deviceUniqueAttestation => flag? l.deviceUniqueAttestation
  | .attestationIdSecondImei => l.secondImei
  | .moduleHash => l.moduleHash

theorem ofValues_value? (l : AuthorizationList) : ofValues l.securityLevel l.value? = l := by
  simp only [ofValues, value?, isSet_flag?]

/-- Setting a property reads its value and changes nothing else. -/
theorem set_ofValues {α : Type} [PropertyValue α] (level : Option SecurityLevel)
    (f : (t : Tag) → Option t.kind.Value) (t : Tag) (v : α) :
    (ofValues level f).set t v =
      (t.kind.read t.label v).map fun x => ofValues level (Function.update f t (some x)) := by
  cases t <;> rfl

end AuthorizationList

/-- The keys of entries are the properties, and none for the security level. -/
def PropertyValueOf : Option Tag → Type
  | none => SecurityLevel
  | some t => t.kind.Value

abbrev PropertyEntry := Sigma PropertyValueOf

namespace PropertyEntry

def level (l : SecurityLevel) : PropertyEntry := ⟨none, l⟩

def property (t : Tag) (x : t.kind.Value) : PropertyEntry := ⟨some t, x⟩

@[simp] theorem level_fst (l : SecurityLevel) : (level l).1 = none := rfl

def read? {α : Type} [PropertyValue α] (t : Tag) (v : α) : Option PropertyEntry :=
  (t.kind.read t.label v).toOption.map (property t)

def readLevel (v : Cbor.Item) : Decoded SecurityLevel :=
  do SecurityLevel.ofTokenNumber (← v.asInt "security-level")

theorem readLevel_bind {β : Type} (v : Cbor.Item) (f : SecurityLevel → Decoded β) :
    (v.asInt "security-level" >>= fun n => SecurityLevel.ofTokenNumber n >>= f) =
      readLevel v >>= f := by
  unfold readLevel
  cases v.asInt "security-level" <;> rfl

def ofObject? (x : Ber.Object) : Option PropertyEntry :=
  x.context?.bind fun c => (Tag.ofNumber? c.1).bind fun t =>
    (Ber.Object.ofOctets t.label c.2).toOption.bind (read? t)

def ofItem? (e : Cbor.Item × Cbor.Item) : Option PropertyEntry :=
  e.1.int?.bind fun key =>
    if key = AuthorizationList.securityLevelClaim then (readLevel e.2).toOption.map level
    else (Tag.ofClaim? key).bind fun t => read? t e.2

end PropertyEntry

namespace AuthorizationList

/-- The list with the entries; where two have the same key, the first counts. -/
def ofEntries (es : List PropertyEntry) : AuthorizationList :=
  ofValues (es.dlookup none) fun t => es.dlookup (some t)

def ofDistinct? (es : List PropertyEntry) : Option AuthorizationList :=
  if es.NodupKeys then some (ofEntries es) else none

variable {es es' : List PropertyEntry}

theorem ofDistinct?_eq_of_perm (h : es.Perm es') : ofDistinct? es = ofDistinct? es' :=
  Entries.ite_nodupKeys_eq_of_perm (fun _ _ hl => by simp only [ofEntries, hl]) h

theorem ofEntries_append_level (h : none ∉ es.keys) (l : SecurityLevel) :
    ofEntries (es ++ [.level l]) = { ofEntries es with securityLevel := some l } := by
  have hl := Entries.dlookup_append_singleton (PropertyEntry.level l) h
  have hv : (fun u => (es ++ [PropertyEntry.level l]).dlookup (some u)) = fun u =>
    es.dlookup (some u) := by
    funext u
    rw [hl]
    exact Function.update_of_ne (Option.some_ne_none u) ..
  rw [ofEntries, hv, hl]
  rfl

theorem ofEntries_append_property {t : Tag} (h : some t ∉ es.keys) (x : t.kind.Value) :
    ofEntries (es ++ [.property t x]) =
      ofValues (es.dlookup none) (Function.update (fun u => es.dlookup (some u)) t (some x)) := by
  have hl := Entries.dlookup_append_singleton (PropertyEntry.property t x) h
  have hv : (fun u => (es ++ [PropertyEntry.property t x]).dlookup (some u)) =
      Function.update (fun u => es.dlookup (some u)) t (some x) := by
    funext u
    rw [hl]
    by_cases hu : u = t
    · subst hu
      rw [Function.update_self]
      exact Function.update_self ..
    · rw [Function.update_of_ne hu]
      exact Function.update_of_ne (fun h => hu (Option.some.inj h)) ..
  rw [ofEntries, hv, hl]
  exact congrArg (ofValues · _) (Function.update_of_ne (Option.some_ne_none t).symm ..)

namespace Partial

def ofEntries (es : List PropertyEntry) : Partial where
  list := AuthorizationList.ofEntries es
  seen := (es.keys.filterMap id).reverse

theorem mem_seen_iff {t : Tag} : t ∈ (ofEntries es).seen ↔ some t ∈ es.keys := by
  simp [ofEntries]

theorem ofEntries_append_level (h : none ∉ es.keys) (l : SecurityLevel) :
    ofEntries (es ++ [.level l]) =
      { ofEntries es with list := { (ofEntries es).list with securityLevel := some l } } := by
  rw [ofEntries, AuthorizationList.ofEntries_append_level h, List.keys_append,
    List.filterMap_append]
  simp [ofEntries]

/-- A value that reads is another entry, unless there is one for its property. -/
theorem toOption_add {α : Type} [PropertyValue α] (es : List PropertyEntry) (t : Tag) (v : α) :
    ((ofEntries es).add t v).toOption = (PropertyEntry.read? t v).bind fun e =>
      if (es.dlookup e.1).isSome then none else some (ofEntries (es ++ [e])) := by
  unfold add PropertyEntry.read?
  rw [Option.bind_map, if_congr mem_seen_iff rfl rfl]
  by_cases h : some t ∈ es.keys
  · rw [if_pos h]
    cases t.kind.read t.label v with
    | error e => rfl
    | ok x => exact (if_pos (List.dlookup_isSome.2 h)).symm
  · have hset : (ofEntries es).list.set t v =
        (t.kind.read t.label v).map fun x =>
          AuthorizationList.ofEntries (es ++ [.property t x]) := by
      simp only [ofEntries_append_property h]
      exact set_ofValues _ _ t v
    rw [if_neg h, hset]
    cases t.kind.read t.label v with
    | error e => rfl
    | ok x =>
      refine Eq.trans ?_ (if_neg fun hs => h (List.dlookup_isSome.1 hs)).symm
      simp only [ofEntries, List.keys_append, List.filterMap_append, List.reverse_append]
      rfl

theorem toOption_addObject (es : List PropertyEntry) (x : Ber.Object) :
    ((ofEntries es).addObject x).toOption = (PropertyEntry.ofObject? x).bind fun e =>
      if (es.dlookup e.1).isSome then none else some (ofEntries (es ++ [e])) := by
  unfold addObject PropertyEntry.ofObject?
  cases x.context? with
  | none => rfl
  | some c =>
    obtain ⟨n, content⟩ := c
    simp only [Option.bind_some]
    cases Tag.ofNumber? n with
    | none => rfl
    | some t => simp only [Option.bind_some, Option.bind_assoc, toOption_bind, toOption_add]

theorem toOption_addEntry (es : List PropertyEntry) (e : Cbor.Item × Cbor.Item) :
    ((ofEntries es).addEntry e).toOption = (PropertyEntry.ofItem? e).bind fun e =>
      if (es.dlookup e.1).isSome then none else some (ofEntries (es ++ [e])) := by
  unfold addEntry PropertyEntry.ofItem? Cbor.Item.asNumber
  cases e.1.int? with
  | none => rfl
  | some key =>
    change (if key = securityLevelClaim then _ else _ : Decoded Partial).toOption = _
    rw [Option.bind_some]
    split
    · rw [PropertyEntry.readLevel_bind]
      cases PropertyEntry.readLevel e.2 with
      | error x => split <;> rfl
      | ok l =>
        split
        · next h => exact (if_pos h).symm
        · next h =>
          refine Eq.trans ?_ (if_neg h).symm
          rw [ofEntries_append_level fun hk => h (List.dlookup_isSome.2 hk)]
          rfl
    · cases Tag.ofClaim? key with
      | none => rfl
      | some t => exact toOption_add es t e.2

theorem toOption_list {β : Type} {step : Partial → β → Decoded Partial}
    {read : β → Option PropertyEntry}
    (hstep : ∀ es b, (step (ofEntries es) b).toOption =
      (read b).bind fun e => if (es.dlookup e.1).isSome then none else some (ofEntries (es ++ [e])))
    (bs : List β) :
    (bs.foldlM step {} >>= fun p => pure p.list : Decoded AuthorizationList).toOption =
      (bs.mapM read).bind ofDistinct? := by
  change (bs.foldlM step (ofEntries []) >>=
    fun p => pure p.list : Decoded AuthorizationList).toOption = _
  rw [toOption_bind, Entries.toOption_foldlM hstep bs, Option.bind_assoc]
  congr 1
  funext es
  rw [ofDistinct?]
  split <;> rfl

end Partial

/-- A list in the SEQUENCE form. -/
theorem toOption_ofObject (xs : List Ber.Object) :
    (ofObject (.sequence xs)).toOption = (xs.mapM PropertyEntry.ofObject?).bind ofDistinct? :=
  Partial.toOption_list Partial.toOption_addObject xs

/-- A list in the map form. -/
theorem toOption_ofItem (es : List (Cbor.Item × Cbor.Item)) :
    (ofItem (.map es)).toOption = (es.mapM PropertyEntry.ofItem?).bind ofDistinct? :=
  Partial.toOption_list Partial.toOption_addEntry es

end AuthorizationList

end AttestedKey
