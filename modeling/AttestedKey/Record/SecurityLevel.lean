import AttestedKey.Record.DecodeError

/-! Where a key, or the code that attests it, lives. -/

namespace AttestedKey

inductive SecurityLevel
  | software
  | trustedEnvironment
  | strongBox
  deriving DecidableEq, Repr

namespace SecurityLevel

/-- The numbering of key descriptions. -/
def ofNumber (n : Int64) : Decoded SecurityLevel :=
  if n = 0 then .ok software
  else if n = 1 then .ok trustedEnvironment
  else if n = 2 then .ok strongBox
  else .error (.typeMismatch s!"unknown security level {n.toInt}")

/-- The numbering of entity attestation tokens: unrestricted, secure restricted, hardware. -/
def ofTokenNumber (n : Int64) : Decoded SecurityLevel :=
  if n = 1 then .ok software
  else if n = 3 then .ok trustedEnvironment
  else if n = 4 then .ok strongBox
  else .error (.typeMismatch s!"unknown EAT security level {n.toInt}")

def number : SecurityLevel → Int64
  | software => 0
  | trustedEnvironment => 1
  | strongBox => 2

def tokenNumber : SecurityLevel → Int64
  | software => 1
  | trustedEnvironment => 3
  | strongBox => 4

theorem ofNumber_number (l : SecurityLevel) : ofNumber l.number = .ok l := by cases l <;> rfl

theorem ofTokenNumber_tokenNumber (l : SecurityLevel) : ofTokenNumber l.tokenNumber = .ok l := by
  cases l <;> rfl

def label : SecurityLevel → String
  | software => "Software"
  | trustedEnvironment => "TEE"
  | strongBox => "StrongBox"

def name : SecurityLevel → String
  | software => "Software"
  | trustedEnvironment => "TrustedEnvironment"
  | strongBox => "StrongBox"

end SecurityLevel

end AttestedKey
