import AttestedKey.Json.Writer
import AttestedKey.Provisioning.Client

/-! What provisioning gives, as JSON. Octets are hexadecimal, chains are members named by their
curves. -/

namespace AttestedKey.Report

open Json

def endpointKeys (k : EndpointKeys) : Json := .object [
  ("chains", .object (k.chains.toList.map fun (curve, chain) => (toString curve.toInt, hex chain))),
  ("challenge", hex k.challenge)]

def certificateRequest (r : CertificateRequest) : Json := .object [
  ("csr", hex r.csr),
  ("device_info", hex r.deviceInfo)]

def provisioned (p : Provisioned) : Json := .object [
  ("certificates", hex p.certificates),
  ("device_info", hex p.deviceInfo)]

end AttestedKey.Report
