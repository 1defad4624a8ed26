import AttestedKey.Certificate.Trust
import AttestedKey.Record.Attestation
import AttestedKey.Record.ProvisioningInfo
import AttestedKey.TrustAnchor.Basic

/-! What is found out about one certificate of a chain. The checks come in a fixed order,
signature, revocation, time, and the first that fails decides how the certificate stands. The
attestation is read whatever the checks say. -/

namespace AttestedKey

/-- How far a certificate got, worst first. -/
inductive CertificateStatus
  | unknown
  | sign
  | revoked
  | expired
  | normal
  deriving DecidableEq, Repr

namespace CertificateStatus

def name : CertificateStatus → String
  | unknown => "Unknown"
  | sign => "Sign"
  | revoked => "Revoked"
  | expired => "Expired"
  | normal => "Normal"

def rank : CertificateStatus → Nat
  | unknown => 0
  | sign => 1
  | revoked => 2
  | expired => 3
  | normal => 4

def ofName? (s : String) : Option CertificateStatus :=
  [unknown, sign, revoked, expired, normal].find? fun x => x.name == s

instance : LE CertificateStatus := ⟨fun a b => a.rank ≤ b.rank⟩

instance : LT CertificateStatus := ⟨fun a b => a.rank < b.rank⟩

instance (a b : CertificateStatus) : Decidable (a ≤ b) :=
  inferInstanceAs (Decidable (a.rank ≤ b.rank))

instance (a b : CertificateStatus) : Decidable (a < b) :=
  inferInstanceAs (Decidable (a.rank < b.rank))

def worse (a b : CertificateStatus) : CertificateStatus := if a ≤ b then a else b

/-- The worst of some, unknown of none. -/
def worst : List CertificateStatus → CertificateStatus
  | [] => unknown
  | s :: rest => rest.foldl worse s

end CertificateStatus

/-- How a certificate stands: what the first failing check has to say. -/
inductive Standing where
  | unchecked
  | unsigned (error : TrustError)
  | revoked (entry : RevocationEntry)
  | untimely (error : TrustError)
  | normal
  deriving DecidableEq, Repr

def Standing.status : Standing → CertificateStatus
  | unchecked => .unknown
  | unsigned _ => .sign
  | revoked _ => .revoked
  | untimely _ => .expired
  | normal => .normal

structure TrustContext (R : Type := RevocationStore) where
  revocation : R
  anchors : TrustAnchors := .empty

structure CertificateSummary where
  serial : String
  subject : String
  issuer : String
  notBefore : Instant
  notAfter : Instant
  unexpectedExtensions : List String
  deriving DecidableEq

def Certificate.summary (c : Certificate) : CertificateSummary where
  serial := c.serial
  subject := c.subject
  issuer := c.issuer
  notBefore := c.notBefore
  notAfter := c.notAfter
  unexpectedExtensions := c.extensions.unexpected

structure CertificateFinding where
  summary : CertificateSummary
  standing : Standing
  /-- Whose root key it is; only said of the root. -/
  anchor : Option Issuer := none
  attestation : Decoded Attestation
  provisioning : Option ProvisioningInfo

namespace CertificateFinding

def status (f : CertificateFinding) : CertificateStatus := f.standing.status

def error? (f : CertificateFinding) : Option TrustError :=
  match f.standing with
  | .unsigned e | .untimely e => some e
  | .revoked entry => some (.revoked s!"serial {f.summary.serial} is {entry.text}")
  | .unchecked | .normal => none

def revocation? (f : CertificateFinding) : Option RevocationEntry :=
  match f.standing with
  | .revoked entry => some entry
  | _ => none

def record? (f : CertificateFinding) : Option Attestation := f.attestation.toOption

def decodeError? (f : CertificateFinding) : Option DecodeError :=
  match f.attestation with
  | .ok _ => none
  | .error e => some e

end CertificateFinding

namespace Certificate

variable {R : Type} [RevocationLookup R] [Cryptography]

def standing (c parent : Certificate) (revocation : R) (time : Instant) : Standing :=
  match c.verify parent with
  | .error e => .unsigned e
  | .ok () =>
    match RevocationLookup.lookup revocation c.serial with
    | some entry => .revoked entry
    | none =>
      match c.checkValidity time with
      | .error e => .untimely e
      | .ok () => .normal

def finding (c parent : Certificate) (context : TrustContext R) (time : Instant) :
    CertificateFinding where
  summary := c.summary
  standing := c.standing parent context.revocation time
  attestation := Attestation.ofExtensions c.extensions
  provisioning := ProvisioningInfo.ofExtensions? c.extensions

/-- Its key is attested and must not attest other keys, so nothing below it counts. -/
def endsWalk (c : Certificate) : Bool :=
  match Attestation.ofExtensions c.extensions with
  | .ok a => !a.canAttestKeys
  | .error _ => false

end Certificate

end AttestedKey
