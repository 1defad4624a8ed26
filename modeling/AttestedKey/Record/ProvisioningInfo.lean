import AttestedKey.Record.Element
import AttestedKey.Record.Extension

/-! What a provisioning server notes on the attestation keys it issues: a map in which only two
keys are known; the others are passed over, and the last of two equal keys counts. -/

namespace AttestedKey

structure ProvisioningInfo where
  certsIssued : Option Int64 := none
  manufacturer : Option String := none
  deriving DecidableEq, Repr

namespace ProvisioningInfo

def set (p : ProvisioningInfo) (e : Cbor.Item × Cbor.Item) : Decoded ProvisioningInfo := do
  match ← e.1.asNumber "provisioning-info key" with
  | 1 => pure { p with certsIssued := some (← e.2.asInt "certs-issued") }
  | 3 => pure { p with manufacturer := some (← e.2.asText "manufacturer") }
  | _ => pure p

def decode (bs : Octets) : Decoded ProvisioningInfo := do
  let x ← Cbor.Item.ofOctets "provisioning-info" bs
  (← x.asMap "provisioning-info").foldlM set {}

/-- `none` also where the extension does not decode. -/
def ofExtensions? (es : Extensions) : Option ProvisioningInfo :=
  (es.get? Extension.provisioningInfo).bind fun e => (decode e.value).toOption

end ProvisioningInfo

end AttestedKey
