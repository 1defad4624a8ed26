import AttestedKey.Dialogue
import AttestedKey.Http
import AttestedKey.Provisioning.Error

/-! What a provisioning session asks of a device and of a server. -/

namespace AttestedKey.Provisioning

structure HardwareInfo where
  version : Int32
  /-- The curve it takes endpoint keys on, up to version 2. -/
  curve : Int64
  deriving DecidableEq, Repr

/-- What a device of version 1 or 2 makes for a certificate request. -/
structure LegacyParts where
  deviceInfo : Octets
  protectedData : Octets
  keysMac : Octets
  deriving DecidableEq, Repr

inductive DeviceCall where
  | hardwareInfo
  | generateKey (testMode : Bool)
  | legacyRequest (testMode : Bool) (keys : List Octets) (chain challenge : Octets)
  | authenticatedRequest (keys : List Octets) (challenge : Octets)
  deriving DecidableEq, Repr

/-- A generated key comes with its authentication code, an authenticated request in its encoding. -/
@[reducible] def DeviceCall.Value : DeviceCall → Type
  | hardwareInfo => HardwareInfo
  | generateKey _ | authenticatedRequest .. => Octets
  | legacyRequest .. => LegacyParts

inductive Question where
  | device (call : DeviceCall)
  | server (request : HttpRequest)

@[reducible] def Question.Answer : Question → Type
  | device call => Shaped call.Value
  | server _ => HttpOutcome

/-- A failure that is only a text is one of the device. -/
instance {α : Type} : Coe (Except String α) (Shaped α) := ⟨Except.mapError .device⟩

/-- A part of a session: a dialogue with device and server that may end in an error. -/
abbrev Session := ExceptT ProvisioningError (Dialogue Question.Answer)

namespace Session

def device (call : DeviceCall) : Session call.Value :=
  ExceptT.mk (.ask (.device call) fun answer => .done answer)

def server (request : HttpRequest) : Session HttpOutcome :=
  ExceptT.mk (.ask (.server request) fun outcome => .done (.ok outcome))

def known {α : Type} (x : Shaped α) : Session α := ExceptT.mk (.done x)

end Session

end AttestedKey.Provisioning
