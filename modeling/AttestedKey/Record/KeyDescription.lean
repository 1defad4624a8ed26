import AttestedKey.Record.AuthorizationList

/-! The key description: the content of the standard attestation extension. -/

namespace AttestedKey

structure KeyDescription where
  attestationVersion : Int64
  attestationSecurityLevel : SecurityLevel
  keyMintVersion : Int64
  keyMintSecurityLevel : SecurityLevel
  challenge : Octets
  /-- Never the empty string. -/
  uniqueId : Option Octets
  softwareEnforced : AuthorizationList
  hardwareEnforced : AuthorizationList
  deriving DecidableEq

namespace KeyDescription

/-- Eight elements. The kind of the unique id is checked before everything else. -/
def ofObject (x : Ber.Object) : Decoded KeyDescription := do
  let seq ← x.asSequence "key-description"
  match seq with
  | [version, level, keyMintVersion, keyMintLevel, challenge, uniqueId, software, hardware] =>
    let uniqueId ← uniqueId.asOctets "unique-id"
    let version ← version.asInt "attestation-version"
    let level ← SecurityLevel.ofNumber (← level.asInt "attestation-security-level")
    let keyMintVersion ← keyMintVersion.asInt "keymint-version"
    let keyMintLevel ← SecurityLevel.ofNumber (← keyMintLevel.asInt "keymint-security-level")
    let challenge ← challenge.asOctets "attestation-challenge"
    let software ← AuthorizationList.ofObject software
    let hardware ← AuthorizationList.ofObject hardware
    pure ⟨version, level, keyMintVersion, keyMintLevel, challenge,
      if uniqueId.isEmpty then none else some uniqueId, software, hardware⟩
  | _ => .error (.malformed s!"key-description: expecting 8 elements, got {seq.length}")

def decode (bs : Octets) : Decoded KeyDescription := do
  ofObject (← Ber.Object.ofOctets "key-description" bs)

end KeyDescription

end AttestedKey
