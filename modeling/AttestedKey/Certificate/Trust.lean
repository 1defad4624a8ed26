import AttestedKey.Certificate.Basic
import AttestedKey.Cryptography

/-! What is checked of one certificate: that its parent's key signed it, and that the time is
right. -/

namespace AttestedKey

inductive TrustError where
  | signature (detail : String)
  | revoked (detail : String)
  | expired (detail : String)
  | notYetValid (detail : String)
  | crypto (detail : String)
  deriving DecidableEq, Repr

namespace TrustError

def message : TrustError → String
  | signature d => "Signature error: " ++ d
  | revoked d => "Certificate revoked: " ++ d
  | expired d => "Certificate expired: " ++ d
  | notYetValid d => "Certificate not yet valid: " ++ d
  | crypto d => "Crypto error: " ++ d

def detail : TrustError → String
  | signature d | revoked d | expired d | notYetValid d | crypto d => d

end TrustError

namespace AlgorithmIdentifier

/-- The same identifier, and parameters of the same value: content for primitive universal
elements, the whole encoding for others. -/
def agrees (a b : AlgorithmIdentifier) : Bool :=
  a.oid == b.oid && match a.parameters, b.parameters with
    | none, none => true
    | some p, some q =>
      p.raw == q.raw ||
        (p.isUniversal q.tag false && q.isUniversal p.tag false && p.content == q.content)
    | _, _ => false

end AlgorithmIdentifier

namespace Certificate

/-- The signature against the parent's key. The signed part has to name the algorithm of the
signature. -/
def verify [Cryptography] (c parent : Certificate) : Except TrustError Unit :=
  let wrong : Except TrustError Unit :=
    .error (.signature ("not signed by the key of " ++ parent.subject))
  match Cryptography.decode? parent.keyInfo with
  | none => .error (.crypto "unreadable public key")
  | some key =>
    if c.fields.signedAlgorithm.agrees c.fields.algorithm then
      match Cryptography.check c.fields.algorithm key c.fields.signed c.fields.signature with
      | .valid => .ok ()
      | .wrong => wrong
      | .unusable => .error (.signature "unusable signature")
    else wrong

/-- Both ends of the validity are included. -/
def checkValidity (c : Certificate) (time : Instant) : Except TrustError Unit :=
  if time < c.notBefore then .error (.notYetValid ("valid from " ++ c.notBefore.offsetText))
  else if c.notAfter < time then .error (.expired ("valid until " ++ c.notAfter.offsetText))
  else .ok ()

end Certificate

end AttestedKey
