import AttestedKey.Provisioning.EndpointKeys
import AttestedKey.Provisioning.Request

/-! Sessions with a provisioning server: it is asked for endpoint keys, the device makes a
certificate request with them, and the server signs it. All requests of one client carry the same
identifier. -/

namespace AttestedKey

structure ProvisioningClient where
  address : String
  fingerprint : String
  requestId : String
  deriving DecidableEq, Repr

/-- Certificates one after the other, leaf first. -/
structure Provisioned where
  certificates : Octets
  deviceInfo : Octets
  deriving DecidableEq, Repr

namespace ProvisioningClient

open Cbor (Item)
open Provisioning

def defaultAddress : String := "https://remoteprovisioning.googleapis.com/v1"

/-- Of a longer answer only this many octets are looked at. -/
def maxAnswer : Nat := 0x100000

def trimmed (address : String) : String :=
  String.ofList (address.toList.reverse.dropWhile (· == '/')).reverse

def endpointAddress (c : ProvisioningClient) (endpoint : String) : String :=
  trimmed c.address ++ "/" ++ endpoint

def request (c : ProvisioningClient) (endpoint : String) (parameters : List (String × String))
    (body : Octets) : HttpRequest where
  method := "POST"
  address := c.endpointAddress endpoint
  parameters := parameters ++ [("requestId", c.requestId)]
  body := body

/-- What an outcome means: one data item at status 200, and an error at any other. An error goes
without the text of its body if there is none to be had. -/
def received (c : ProvisioningClient) (endpoint : String) : HttpOutcome → Shaped Item
  | .failed cause => .error (.network (c.endpointAddress endpoint ++ ": " ++ cause))
  | .answered status body =>
    if status = 200 then
      match body.upTo maxAnswer with
      | .ok octets => item endpoint octets
      | .error cause => .error (.network (c.endpointAddress endpoint ++ ": " ++ cause))
    else if status = 444 then .error .notRegistered
    else .error (.server status ((HttpOutcome.text status body).toOption.getD ""))

theorem received_whole (c : ProvisioningClient) (endpoint : String) (body : Octets) :
    c.received endpoint (.answered 200 body) = item endpoint (body.take maxAnswer) := by
  rw [received, if_pos rfl, HttpBody.upTo_whole]

def post (c : ProvisioningClient) (endpoint : String) (parameters : List (String × String))
    (body : Octets) : Session Item := do
  .known (c.received endpoint (← .server (c.request endpoint parameters body)))

def endpointKeysBody (c : ProvisioningClient) : Octets :=
  Cbor.write (.map [(.text "fingerprint", .text c.fingerprint), (.text "id", .unsigned 0)])

def fetchEndpointKeys (c : ProvisioningClient) : Session EndpointKeys := do
  let answer ← c.post ":fetchEekChain" [] c.endpointKeysBody
  .known (EndpointKeys.decode (Cbor.write answer))

/-- Has the device make a key and a request for it, in the shape of its version. -/
def generateRequest (c : ProvisioningClient) (keys : EndpointKeys) :
    Session CertificateRequest := do
  let hardware ← .device .hardwareInfo
  let key ← .device (.generateKey false)
  if hardware.version < 3 then
    match keys.chains.get? hardware.curve with
    | none => throw (.malformed s!"no EEK chain for curve {hardware.curve.toInt}")
    | some chain =>
      let parts ← .device (.legacyRequest false [key] chain keys.challenge)
      .known (legacyCertificateRequest c.fingerprint keys.challenge key parts)
  else
    let made ← .device (.authenticatedRequest [key] keys.challenge)
    .known (authenticatedCertificateRequest c.fingerprint made)

/-- A request made with the keys for tests, which needs no server. -/
def localRequest (c : ProvisioningClient) (time : Instant) : Session CertificateRequest :=
  c.generateRequest (.forTests time)

/-- The certificates in an answer: those that all keys share, and a list whose first is the key's
own. -/
def certificates (answer : Item) : Shaped Octets := do
  let parts ← array "signCertificates response" answer
  let shared ← octets "shared certs" (← nth "signCertificates response" 0 parts)
  let own ← array "unique certs" (← nth "signCertificates response" 1 parts)
  let leaf ← octets "unique cert" (← nth "unique certs" 0 own)
  pure (leaf ++ shared)

def sign (c : ProvisioningClient) (csr challenge : Octets) : Session Octets := do
  let parameters := [("challenge", Base64.encode .urlSafe challenge)]
  .known (certificates (← c.post ":signCertificates" parameters csr))

def provision (c : ProvisioningClient) : Session Provisioned := do
  let keys ← c.fetchEndpointKeys
  let request ← c.generateRequest keys
  let certificates ← c.sign request.csr keys.challenge
  pure ⟨certificates, request.deviceInfo⟩

end ProvisioningClient

end AttestedKey
