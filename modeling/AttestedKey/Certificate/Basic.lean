import AttestedKey.Certificate.Conformance
import AttestedKey.Certificate.Fields

/-! A certificate: its encoding, and the fields read off it. -/

namespace AttestedKey

inductive ChainError where
  | syntaxError (detail : String)
  | emptyChain
  | crypto (detail : String)
  deriving DecidableEq, Repr

namespace ChainError

def message : ChainError → String
  | syntaxError d => "Syntax error: " ++ d
  | emptyChain => "Empty certificate chain"
  | crypto d => "Crypto error: " ++ d

def detail : ChainError → String
  | syntaxError d | crypto d => d
  | emptyChain => emptyChain.message

end ChainError

structure Certificate where
  der : Octets
  fields : CertificateFields
  deriving DecidableEq

namespace Certificate

/-- Exactly one certificate, which has to conform to the stricter rules too. -/
def ofDer (der : Octets) : Except ChainError Certificate :=
  match CertificateFields.read der with
  | none => .error (.syntaxError "certificate")
  | some (fields, _, rest) =>
    if rest.isEmpty then
      if Conformance.isCertificate der then .ok ⟨der, fields⟩
      else .error (.crypto "malformed certificate")
    else .error (.syntaxError s!"{rest.length} trailing bytes after certificate")

def serial (c : Certificate) : String := String.ofList (Nat.toDigits 16 c.fields.serialNumber)

def subject (c : Certificate) : String := c.fields.subject.text

def issuer (c : Certificate) : String := c.fields.issuer.text

def keyInfo (c : Certificate) : Octets := c.fields.keyInfo

def notBefore (c : Certificate) : Instant := c.fields.validity.notBefore

def notAfter (c : Certificate) : Instant := c.fields.validity.notAfter

def extensions (c : Certificate) : Extensions := c.fields.extensions

def isSelfIssued (c : Certificate) : Bool := c.fields.subject.raw == c.fields.issuer.raw

def isIssuedBy (c parent : Certificate) : Bool := c.fields.issuer.raw == parent.fields.subject.raw

end Certificate

end AttestedKey
