import AttestedKey.Record.AuthorizationList

/-! The entity attestation token: a map of claims, each at most once. The submodules `software` and
`tee` hold the two authorization lists; the root of trust is put together from the boot state, key,
lock and hash claims and exists only if there is a boot state. -/

namespace AttestedKey

namespace EntityToken

inductive Claim
  | uniqueId
  | nonce
  | submodules
  | securityLevel
  | bootState
  | verifiedBootKey
  | deviceLocked
  | verifiedBootHash
  | attestationVersion
  | keyMintVersion
  | officialBuild
  deriving DecidableEq, Repr

namespace Claim

def ofKey? : Int → Option Claim
  | 7 => some uniqueId
  | -75008 => some nonce
  | -76000 => some submodules
  | -76002 => some securityLevel
  | -76003 => some bootState
  | -81500 => some verifiedBootKey
  | -81501 => some deviceLocked
  | -81502 => some verifiedBootHash
  | -81503 => some attestationVersion
  | -81504 => some keyMintVersion
  | -81505 => some officialBuild
  | _ => none

def key : Claim → Int
  | uniqueId => 7
  | nonce => -75008
  | submodules => -76000
  | securityLevel => -76002
  | bootState => -76003
  | verifiedBootKey => -81500
  | deviceLocked => -81501
  | verifiedBootHash => -81502
  | attestationVersion => -81503
  | keyMintVersion => -81504
  | officialBuild => -81505

theorem ofKey?_key (c : Claim) : ofKey? c.key = some c := by cases c <;> rfl

def label : Claim → String
  | uniqueId => "cti"
  | nonce => "nonce"
  | submodules => "submods"
  | securityLevel => "security-level"
  | bootState => "boot-state"
  | verifiedBootKey => "verified-boot-key"
  | deviceLocked => "device-locked"
  | verifiedBootHash => "verified-boot-hash"
  | attestationVersion => "attestation-version"
  | keyMintVersion => "keymint-version"
  | officialBuild => "official-build"

end Claim

structure Submodules where
  software : Option AuthorizationList := none
  tee : Option AuthorizationList := none

def Submodules.add (m : Submodules) (e : Cbor.Item × Cbor.Item) : Decoded Submodules := do
  let name ← e.1.asText "submod name"
  if name = "software" then
    if m.software.isSome then .error (.duplicatedTag "submod Text(\"software\")")
    else pure { m with software := some (← AuthorizationList.ofItem e.2) }
  else if name = "tee" then
    if m.tee.isSome then .error (.duplicatedTag "submod Text(\"tee\")")
    else pure { m with tee := some (← AuthorizationList.ofItem e.2) }
  else .error (.unknownTag s!"submod {name}")

structure Claims where
  uniqueId : Option Octets := none
  nonce : Option Octets := none
  submodules : Option Submodules := none
  securityLevel : Option SecurityLevel := none
  bootState : Option (List Bool) := none
  verifiedBootKey : Option Octets := none
  deviceLocked : Option Bool := none
  verifiedBootHash : Option Octets := none
  attestationVersion : Option Int64 := none
  keyMintVersion : Option Int64 := none
  officialBuild : Option Bool := none

namespace Claims

def has (cs : Claims) : Claim → Bool
  | .uniqueId => cs.uniqueId.isSome
  | .nonce => cs.nonce.isSome
  | .submodules => cs.submodules.isSome
  | .securityLevel => cs.securityLevel.isSome
  | .bootState => cs.bootState.isSome
  | .verifiedBootKey => cs.verifiedBootKey.isSome
  | .deviceLocked => cs.deviceLocked.isSome
  | .verifiedBootHash => cs.verifiedBootHash.isSome
  | .attestationVersion => cs.attestationVersion.isSome
  | .keyMintVersion => cs.keyMintVersion.isSome
  | .officialBuild => cs.officialBuild.isSome

def set (cs : Claims) (c : Claim) (v : Cbor.Item) : Decoded Claims :=
  match c with
  | .uniqueId => do pure { cs with uniqueId := some (← v.asOctets c.label) }
  | .nonce => do pure { cs with nonce := some (← v.asOctets c.label) }
  | .submodules => do
    let m ← (← v.asMap c.label).foldlM Submodules.add {}
    pure { cs with submodules := some m }
  | .securityLevel => do
    pure { cs with securityLevel := some (← SecurityLevel.ofTokenNumber (← v.asInt c.label)) }
  | .bootState => do
    let flags ← (← v.asArray c.label).mapM (·.asBool c.label)
    pure { cs with bootState := some flags }
  | .verifiedBootKey => do pure { cs with verifiedBootKey := some (← v.asOctets c.label) }
  | .deviceLocked => do pure { cs with deviceLocked := some (← v.asBool c.label) }
  | .verifiedBootHash => do pure { cs with verifiedBootHash := some (← v.asOctets c.label) }
  | .attestationVersion => do pure { cs with attestationVersion := some (← v.asInt c.label) }
  | .keyMintVersion => do pure { cs with keyMintVersion := some (← v.asInt c.label) }
  | .officialBuild => do pure { cs with officialBuild := some (← v.asBool c.label) }

/-- A second value for a claim is refused before it is looked at. -/
def add (cs : Claims) (e : Cbor.Item × Cbor.Item) : Decoded Claims := do
  let key ← e.1.asNumber "eat claim key"
  match Claim.ofKey? key with
  | none => .error (.unknownTag s!"{key} in eat")
  | some c => if cs.has c then .error (.duplicatedTag c.label) else cs.set c e.2

def required {α : Type} (context : String) (c : Claim) (v : Option α) : Decoded α :=
  match v with
  | some x => .ok x
  | none => .error (.malformed s!"{context}: missing claim {c.label}")

/-- The root of trust: nothing without a boot state; with one, key and lock must be there. -/
def rootOfTrust (cs : Claims) : Decoded (Option RootOfTrust) :=
  match cs.bootState with
  | none => .ok none
  | some flags => do
    let state ← AttestedKey.bootState flags (cs.officialBuild.getD false)
    let key ← required "root-of-trust" .verifiedBootKey cs.verifiedBootKey
    let locked ← required "root-of-trust" .deviceLocked cs.deviceLocked
    pure (some ⟨key, locked, state, cs.verifiedBootHash⟩)

end Claims

end EntityToken

structure EntityToken where
  attestationVersion : Option Int64
  keyMintVersion : Option Int64
  keyMintSecurityLevel : SecurityLevel
  challenge : Octets
  uniqueId : Option Octets
  softwareEnforced : AuthorizationList
  hardwareEnforced : AuthorizationList
  bootState : Option (List Bool)
  officialBuild : Bool
  rootOfTrust : Option RootOfTrust
  deriving DecidableEq

namespace EntityToken

def ofClaims (cs : Claims) : Decoded EntityToken := do
  let nonce ← Claims.required "eat" .nonce cs.nonce
  let level ← Claims.required "eat" .securityLevel cs.securityLevel
  let root ← cs.rootOfTrust
  let lists := cs.submodules.getD {}
  pure {
    attestationVersion := cs.attestationVersion
    keyMintVersion := cs.keyMintVersion
    keyMintSecurityLevel := level
    challenge := nonce
    uniqueId := cs.uniqueId
    softwareEnforced := lists.software.getD {}
    hardwareEnforced := lists.tee.getD {}
    bootState := cs.bootState
    officialBuild := cs.officialBuild.getD false
    rootOfTrust := root }

def decode (bs : Octets) : Decoded EntityToken := do
  let x ← Cbor.Item.ofOctets "eat" bs
  let cs ← (← x.asMap "eat").foldlM Claims.add {}
  ofClaims cs

/-- The level of the submodule that describes the key: the first of `tee` and `software` that names
an algorithm. -/
def attestationSecurityLevel (t : EntityToken) : Option SecurityLevel :=
  if t.hardwareEnforced.algorithm.isSome then t.hardwareEnforced.securityLevel
  else if t.softwareEnforced.algorithm.isSome then t.softwareEnforced.securityLevel
  else none

end EntityToken

end AttestedKey
