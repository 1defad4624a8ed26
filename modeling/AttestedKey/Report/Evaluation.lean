import AttestedKey.Evaluation.Chain
import AttestedKey.Report.Record

/-! Evaluations as JSON. What is absent is left out. -/

namespace AttestedKey.Report

open Json

def revocationEntry (e : RevocationEntry) : Json := .object [
  ("status", .text e.status.label),
  ("reason", ofOption (fun r => .text r.label) e.reason)]

def issuer (i : Issuer) : Json := .text i.name

def listMember (name : String) (items : List Json) : List (String × Json) :=
  if items.isEmpty then [] else [(name, .array items)]

def certificateFinding (f : CertificateFinding) : Json := .object <|
  [("serial", .text f.summary.serial),
  ("subject", .text f.summary.subject),
  ("issuer", .text f.summary.issuer),
  ("not_before", instant f.summary.notBefore),
  ("not_after", instant f.summary.notAfter)] ++
  optionalMember "issuer_kind" issuer f.anchor ++
  [("status", .text f.status.name)] ++
  optionalMember "error" (fun e => .text e.message) f.error? ++
  optionalMember "revocation" revocationEntry f.revocation? ++
  optionalMember "record" attestation f.record? ++
  optionalMember "decode_error" (fun e => .text e.message) f.decodeError? ++
  optionalMember "provisioning_info" provisioningInfo f.provisioning ++
  listMember "unexpected_extensions" (f.summary.unexpectedExtensions.map .text)

def chainEvaluation (e : ChainEvaluation) : Json := .object <|
  [("certificates", .array (e.certificates.map certificateFinding)),
  ("issuer", issuer e.issuer)] ++
  optionalMember "record" attestation e.record? ++
  optionalMember "root_of_trust" rootOfTrust e.rootOfTrust? ++
  [("software_level", .bool e.isSoftwareLevel),
  ("revocation_available", .bool e.revocationAvailable)]

end AttestedKey.Report
