import AttestedKey.Record.EntityToken
import AttestedKey.Record.Extension
import AttestedKey.Record.Knox

/-! The attestation a certificate carries, in whichever of the three formats. -/

namespace AttestedKey

inductive Attestation where
  | standard (description : KeyDescription)
  | token (token : EntityToken)
  | knox (record : KnoxRecord)
  deriving DecidableEq

namespace Attestation

/-- Exactly one of the standard and the token extension has to be there; the Knox extension counts
only beside the standard one. -/
def ofExtensions (es : Extensions) : Decoded Attestation :=
  match es.get? Extension.keyAttestation, es.get? Extension.entityToken with
  | none, none => .error .noAttestationExtension
  | some _, some _ => .error .multipleAttestationExtensions
  | none, some t => do pure (.token (← EntityToken.decode t.value))
  | some s, none =>
    match es.get? Extension.knox with
    | some k => do pure (.knox (← KnoxRecord.decode s.value k.value))
    | none => do pure (.standard (← KeyDescription.decode s.value))

def attestationVersion : Attestation → Option Int64
  | standard d => some d.attestationVersion
  | knox r => some r.keyDescription.attestationVersion
  | token t => t.attestationVersion

/-- `none` where a token does not determine it. -/
def attestationSecurityLevel : Attestation → Option SecurityLevel
  | standard d => some d.attestationSecurityLevel
  | knox r => some r.keyDescription.attestationSecurityLevel
  | token t => t.attestationSecurityLevel

def keyMintVersion : Attestation → Option Int64
  | standard d => some d.keyMintVersion
  | knox r => some r.keyDescription.keyMintVersion
  | token t => t.keyMintVersion

def keyMintSecurityLevel : Attestation → SecurityLevel
  | standard d => d.keyMintSecurityLevel
  | knox r => r.keyDescription.keyMintSecurityLevel
  | token t => t.keyMintSecurityLevel

def challenge : Attestation → Octets
  | standard d => d.challenge
  | knox r => r.keyDescription.challenge
  | token t => t.challenge

def uniqueId : Attestation → Option Octets
  | standard d => d.uniqueId
  | knox r => r.keyDescription.uniqueId
  | token t => t.uniqueId

def softwareEnforced : Attestation → AuthorizationList
  | standard d => d.softwareEnforced
  | knox r => r.keyDescription.softwareEnforced
  | token t => t.softwareEnforced

def hardwareEnforced : Attestation → AuthorizationList
  | standard d => d.hardwareEnforced
  | knox r => r.keyDescription.hardwareEnforced
  | token t => t.hardwareEnforced

def rootOfTrust : Attestation → Option RootOfTrust
  | standard d => d.hardwareEnforced.rootOfTrust
  | knox r => r.keyDescription.hardwareEnforced.rootOfTrust
  | token t => t.rootOfTrust

/-- What hardware enforces about the purposes of the key if it says anything, else what software
does. -/
def purposes (a : Attestation) : Option NumberSet :=
  a.hardwareEnforced.purposes.or a.softwareEnforced.purposes

def attestKeyPurpose : Int64 := 7

def canAttestKeys (a : Attestation) : Bool := a.purposes.any (·.contains attestKeyPurpose)

end Attestation

end AttestedKey
