import AttestedKey.Instant
import AttestedKey.Record.Attestation

/-! What a key store is asked for when it generates an attested key. -/

namespace AttestedKey

structure KeyParameters where
  name : String
  challenge : Octets
  purpose : Int64
  /-- The key that signs the attestation in place of the factory's. -/
  attestKeyName : Option String := none
  useStrongBox : Bool := false
  includeDeviceProperties : Bool := false
  includeUniqueId : Bool := false
  attestationIds : List Int64 := []
  deriving DecidableEq, Repr

namespace KeyParameters

def signPurpose : Int64 := 2

/-- A key that signs, with the time as its challenge. -/
def signing (name : String) (time : Instant) : KeyParameters where
  name := name
  challenge := Octets.ofAscii time.stamp
  purpose := signPurpose

def withAttestKey (p : KeyParameters) (name : String) : KeyParameters :=
  { p with attestKeyName := some name }

def isAttestKey (p : KeyParameters) : Bool := p.purpose == Attestation.attestKeyPurpose

/-- The key that is to attest a key like this, which the factory's key attests. -/
def attestKey (p : KeyParameters) (name : String) : KeyParameters :=
  { p with name := name, purpose := Attestation.attestKeyPurpose, attestKeyName := none }

end KeyParameters

end AttestedKey
