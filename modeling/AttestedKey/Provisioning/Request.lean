import AttestedKey.Cbor.Writer
import AttestedKey.Provisioning.Device

/-! Certificate requests in the two shapes that devices call for. What the device signed is passed
on as it is; what it did not verify stands beside it. -/

namespace AttestedKey

/-- A request ready to be sent, and the info on the device that it carries. -/
structure CertificateRequest where
  csr : Octets
  deviceInfo : Octets
  deriving DecidableEq, Repr

namespace Provisioning

open Cbor (Item)

/-- What is said of the device without its word for it. -/
def unverifiedInfo (fingerprint : String) : Item := .map [(.text "fingerprint", .text fingerprint)]

def macHeader : Octets := Cbor.write (.map [(.unsigned 1, .unsigned 5)])

/-- An authenticated array of the public key that is inside a generated key. -/
def keysToSign (key mac : Octets) : Shaped Item := do
  let what := "maced public key"
  let parts ← array what (← item what key)
  let publicKey ← item "COSE_Key" (← octets "maced public key payload" (← nth what 2 parts))
  pure (.array [.bytes macHeader, .map [], .bytes (Cbor.write (.array [publicKey])), .bytes mac])

def legacyCsr (parts : LegacyParts) (unverified : Item) (challenge : Octets) (keys : Item) :
    Shaped Octets := do
  let verified ← item "device info" parts.deviceInfo
  let protectedData ← item "protected data" parts.protectedData
  pure (Cbor.write (.array [.array [verified, unverified], .bytes challenge, protectedData, keys]))

/-- The info on the device inside an authenticated request: its fourth element is the signed data,
whose payload holds the challenge and the payload of the request, and that version, type, info and
keys. -/
def signedInfo (request : Item) : Shaped Item := do
  let signed ← array "signed data" (← nth "CSR" 3 (← array "CSR" request))
  let payload ← item "signed data payload"
    (← octets "signed data payload" (← nth "signed data" 2 signed))
  let parts ← array "signed data payload" payload
  let inner ← item "CSR payload" (← octets "CSR payload" (← nth "signed data payload" 1 parts))
  let info ← nth "CSR payload" 2 (← array "CSR payload" inner)
  if info.map?.isSome then pure info else .error (.malformed "device info MUST be map")

def completedCsr (request unverified : Item) : Shaped Octets := do
  pure (Cbor.write (.array ((← array "CSR" request) ++ [unverified])))

def legacyCertificateRequest (fingerprint : String) (challenge key : Octets) (parts : LegacyParts) :
    Shaped CertificateRequest := do
  let keys ← keysToSign key parts.keysMac
  let csr ← legacyCsr parts (unverifiedInfo fingerprint) challenge keys
  pure ⟨csr, parts.deviceInfo⟩

def authenticatedCertificateRequest (fingerprint : String) (made : Octets) :
    Shaped CertificateRequest := do
  let request ← item "CSR" made
  let info ← signedInfo request
  let csr ← completedCsr request (unverifiedInfo fingerprint)
  pure ⟨csr, Cbor.write info⟩

end Provisioning

end AttestedKey
