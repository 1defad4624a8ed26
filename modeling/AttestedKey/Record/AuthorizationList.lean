import AttestedKey.Instant
import AttestedKey.Record.ApplicationId
import AttestedKey.Record.RootOfTrust
import AttestedKey.Record.SecurityLevel
import AttestedKey.Record.Tag

/-! The properties of a key that one layer, software or secure hardware, enforces. The list has two
wire forms, a SEQUENCE of explicitly tagged objects and a map of claims. `PropertyValue` says what
differs between them; `AuthorizationList.set` is shared. -/

namespace AttestedKey

class PropertyValue (α : Type) where
  int : String → α → Decoded Int64
  uint : String → α → Decoded UInt64
  ints : String → α → Decoded NumberSet
  octets : String → α → Decoded Octets
  rootOfTrust : String → α → Decoded RootOfTrust

namespace PropertyValue

variable {α : Type} [PropertyValue α]

def date (what : String) (v : α) : Decoded Instant := do
  let ms ← int what v
  match Instant.ofMillis? ms.toInt with
  | some t => .ok t
  | none => .error (.typeMismatch s!"{what}: {ms.toInt} is not a valid date")

def text (what : String) (v : α) : Decoded String := do
  pure (Utf8.decodeLossy (← octets what v))

/-- Both forms wrap the encoding of the application id in an octet string. -/
def applicationId (what : String) (v : α) : Decoded ApplicationId := do
  ApplicationId.decode (← octets what v)

end PropertyValue

/-- An object is read as it stands. -/
instance : PropertyValue Ber.Object where
  int := Ber.Object.asInt
  uint := Ber.Object.asUInt
  ints what x := do
    pure (NumberSet.ofList (← (← x.asSet what).mapM (·.asInt what)))
  octets := Ber.Object.asOctets
  rootOfTrust _ x := RootOfTrust.ofObject x

/-- An item carries the root of trust as an octet string. -/
instance : PropertyValue Cbor.Item where
  int := Cbor.Item.asInt
  uint := Cbor.Item.asUInt
  ints what x := do
    pure (NumberSet.ofList (← (← x.asArray what).mapM (·.asInt what)))
  octets := Cbor.Item.asOctets
  rootOfTrust what x := do RootOfTrust.decode (← x.asOctets what)

/-- Every property is optional; those that presence alone states are flags. -/
structure AuthorizationList where
  /-- Only tokens carry it. -/
  securityLevel : Option SecurityLevel := none
  purposes : Option NumberSet := none
  algorithm : Option Int64 := none
  keySize : Option Int64 := none
  digests : Option NumberSet := none
  paddings : Option NumberSet := none
  ecCurve : Option Int64 := none
  rsaPublicExponent : Option UInt64 := none
  mgfDigests : Option NumberSet := none
  rollbackResistance : Bool := false
  earlyBootOnly : Bool := false
  activeDateTime : Option Instant := none
  originationExpireDateTime : Option Instant := none
  usageExpireDateTime : Option Instant := none
  usageCountLimit : Option Int64 := none
  noAuthRequired : Bool := false
  userAuthType : Option Int64 := none
  authTimeout : Option Int64 := none
  allowWhileOnBody : Bool := false
  trustedUserPresenceRequired : Bool := false
  trustedConfirmationRequired : Bool := false
  unlockedDeviceRequired : Bool := false
  allApplications : Bool := false
  applicationId : Option Octets := none
  creationDateTime : Option Instant := none
  origin : Option Int64 := none
  rollbackResistant : Bool := false
  rootOfTrust : Option RootOfTrust := none
  osVersion : Option Int64 := none
  osPatchLevel : Option Int64 := none
  attestationApplicationId : Option ApplicationId := none
  brand : Option String := none
  device : Option String := none
  product : Option String := none
  serial : Option String := none
  imei : Option String := none
  meid : Option String := none
  manufacturer : Option String := none
  model : Option String := none
  vendorPatchLevel : Option Int64 := none
  bootPatchLevel : Option Int64 := none
  deviceUniqueAttestation : Bool := false
  secondImei : Option String := none
  moduleHash : Option Octets := none
  deriving DecidableEq

namespace AuthorizationList

def set {α : Type} [PropertyValue α] (l : AuthorizationList) (t : Tag) (v : α) :
    Decoded AuthorizationList :=
  match t with
  | .purpose => do pure { l with purposes := some (← PropertyValue.ints t.label v) }
  | .algorithm => do pure { l with algorithm := some (← PropertyValue.int t.label v) }
  | .keySize => do pure { l with keySize := some (← PropertyValue.int t.label v) }
  | .digest => do pure { l with digests := some (← PropertyValue.ints t.label v) }
  | .padding => do pure { l with paddings := some (← PropertyValue.ints t.label v) }
  | .ecCurve => do pure { l with ecCurve := some (← PropertyValue.int t.label v) }
  | .rsaPublicExponent => do
    pure { l with rsaPublicExponent := some (← PropertyValue.uint t.label v) }
  | .mgfDigest => do pure { l with mgfDigests := some (← PropertyValue.ints t.label v) }
  | .rollbackResistance => .ok { l with rollbackResistance := true }
  | .earlyBootOnly => .ok { l with earlyBootOnly := true }
  | .activeDateTime => do pure { l with activeDateTime := some (← PropertyValue.date t.label v) }
  | .originationExpireDateTime => do
    pure { l with originationExpireDateTime := some (← PropertyValue.date t.label v) }
  | .usageExpireDateTime => do
    pure { l with usageExpireDateTime := some (← PropertyValue.date t.label v) }
  | .usageCountLimit => do pure { l with usageCountLimit := some (← PropertyValue.int t.label v) }
  | .noAuthRequired => .ok { l with noAuthRequired := true }
  | .userAuthType => do pure { l with userAuthType := some (← PropertyValue.int t.label v) }
  | .authTimeout => do pure { l with authTimeout := some (← PropertyValue.int t.label v) }
  | .allowWhileOnBody => .ok { l with allowWhileOnBody := true }
  | .trustedUserPresenceRequired => .ok { l with trustedUserPresenceRequired := true }
  | .trustedConfirmationRequired => .ok { l with trustedConfirmationRequired := true }
  | .unlockedDeviceRequired => .ok { l with unlockedDeviceRequired := true }
  | .allApplications => .ok { l with allApplications := true }
  | .applicationId => do pure { l with applicationId := some (← PropertyValue.octets t.label v) }
  | .creationDateTime => do
    pure { l with creationDateTime := some (← PropertyValue.date t.label v) }
  | .origin => do pure { l with origin := some (← PropertyValue.int t.label v) }
  | .rollbackResistant => .ok { l with rollbackResistant := true }
  | .rootOfTrust => do pure { l with rootOfTrust := some (← PropertyValue.rootOfTrust t.label v) }
  | .osVersion => do pure { l with osVersion := some (← PropertyValue.int t.label v) }
  | .osPatchLevel => do pure { l with osPatchLevel := some (← PropertyValue.int t.label v) }
  | .attestationApplicationId => do
    pure { l with attestationApplicationId := some (← PropertyValue.applicationId t.label v) }
  | .attestationIdBrand => do pure { l with brand := some (← PropertyValue.text t.label v) }
  | .attestationIdDevice => do pure { l with device := some (← PropertyValue.text t.label v) }
  | .attestationIdProduct => do pure { l with product := some (← PropertyValue.text t.label v) }
  | .attestationIdSerial => do pure { l with serial := some (← PropertyValue.text t.label v) }
  | .attestationIdImei => do pure { l with imei := some (← PropertyValue.text t.label v) }
  | .attestationIdMeid => do pure { l with meid := some (← PropertyValue.text t.label v) }
  | .attestationIdManufacturer => do
    pure { l with manufacturer := some (← PropertyValue.text t.label v) }
  | .attestationIdModel => do pure { l with model := some (← PropertyValue.text t.label v) }
  | .vendorPatchLevel => do pure { l with vendorPatchLevel := some (← PropertyValue.int t.label v) }
  | .bootPatchLevel => do pure { l with bootPatchLevel := some (← PropertyValue.int t.label v) }
  | .deviceUniqueAttestation => .ok { l with deviceUniqueAttestation := true }
  | .attestationIdSecondImei => do
    pure { l with secondImei := some (← PropertyValue.text t.label v) }
  | .moduleHash => do pure { l with moduleHash := some (← PropertyValue.octets t.label v) }

/-- A list under construction, and the properties it has been given. -/
structure Partial where
  list : AuthorizationList := {}
  seen : List Tag := []

/-- A second value for a property is refused before it is looked at. -/
def Partial.add {α : Type} [PropertyValue α] (p : Partial) (t : Tag) (v : α) : Decoded Partial :=
  if t ∈ p.seen then .error (.duplicatedTag t.text)
  else do pure ⟨← p.list.set t v, t :: p.seen⟩

def Partial.addObject (p : Partial) (x : Ber.Object) : Decoded Partial :=
  match x.context? with
  | none => .error (.typeMismatch
      s!"authorization-list entries MUST be context-specific, got Tag({x.tag})")
  | some (n, content) =>
    match Tag.ofNumber? n with
    | none => .error (.unknownTag s!"{n} in authorization-list")
    | some t => do p.add t (← Ber.Object.ofOctets t.label content)

def ofObject (x : Ber.Object) : Decoded AuthorizationList := do
  let p ← (← x.asSequence "authorization-list").foldlM Partial.addObject {}
  pure p.list

def decode (bs : Octets) : Decoded AuthorizationList := do
  ofObject (← Ber.Object.ofOctets "authorization-list" bs)

/-- The claim with which a token states the security level of a list. -/
def securityLevelClaim : Int := -76002

def Partial.addEntry (p : Partial) (e : Cbor.Item × Cbor.Item) : Decoded Partial := do
  let key ← e.1.asNumber "authorization-list key"
  if key = securityLevelClaim then
    if p.list.securityLevel.isSome then .error (.duplicatedTag "security-level")
    else
      let level ← SecurityLevel.ofTokenNumber (← e.2.asInt "security-level")
      pure { p with list := { p.list with securityLevel := some level } }
  else
    match Tag.ofClaim? key with
    | none => .error (.unknownTag s!"{key} in authorization-list")
    | some t => p.add t e.2

def ofItem (x : Cbor.Item) : Decoded AuthorizationList := do
  let p ← (← x.asMap "authorization-list").foldlM Partial.addEntry {}
  pure p.list

end AuthorizationList

end AttestedKey
