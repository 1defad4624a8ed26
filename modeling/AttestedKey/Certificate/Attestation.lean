import AttestedKey.Certificate.Fields
import AttestedKey.Record.Attestation

/-! Extensions and attestation of a certificate of which nothing else is asked: what follows it is
passed over, and the stricter rules for certificates are not applied. -/

namespace AttestedKey

def Extensions.ofCertificate (der : Octets) : Decoded Extensions :=
  match CertificateFields.read der with
  | some (fields, _, _) => .ok fields.extensions
  | none => .error (.syntaxError "certificate")

def Attestation.ofCertificate (der : Octets) : Decoded Attestation := do
  Attestation.ofExtensions (← Extensions.ofCertificate der)

end AttestedKey
