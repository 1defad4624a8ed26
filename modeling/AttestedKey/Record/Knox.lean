import AttestedKey.Record.KeyDescription

/-! The Knox record: a key description, and a second extension that adds a challenge, an id
attestation, the integrity status of the device and a hash. Of an element given twice the last one
counts. -/

namespace AttestedKey

namespace Knox

inductive Status
  | normal
  | abnormal
  | notSupported
  | other (value : Int64)
  deriving DecidableEq, Repr

def Status.ofNumber (n : Int64) : Status :=
  if n = 0 then normal else if n = 1 then abnormal else if n = 2 then notSupported else other n

/-- Context tag and value of every element of a SEQUENCE; all of them are opened before any is
used. -/
def taggedElements (what : String) (x : Ber.Object) : Decoded (List (Nat × Ber.Object)) := do
  (← x.asSequence what).mapM fun e =>
    match e.context? with
    | none => .error (.typeMismatch s!"{what}: expecting tagged object, got Tag({e.tag})")
    | some (n, content) => do pure (n, ← Ber.Object.ofOctets what content)

def unknown {α : Type} (what : String) (n : Nat) : Decoded α :=
  .error (.unknownTag s!"{n} in {what}")

structure CallerAuthentication where
  callerResult : Status := .notSupported
  callingPackage : Option String := none
  callingPackageSignatures : Option String := none
  callingPackageResult : Status := .notSupported
  deriving DecidableEq, Repr

namespace CallerAuthentication

def set (a : CallerAuthentication) (e : Nat × Ber.Object) : Decoded CallerAuthentication := do
  match e.1 with
  | 0 => pure { a with callerResult := .ofNumber (← e.2.asInt "caller-auth-result") }
  | 1 => pure { a with callingPackage := some (← e.2.asText "calling-package") }
  | 2 =>
    pure { a with callingPackageSignatures := some (← e.2.asText "calling-package-signatures") }
  | 3 =>
    pure { a with callingPackageResult := .ofNumber (← e.2.asInt "calling-package-auth-result") }
  | n => unknown "auth-result" n

/-- `none` where every part has its default, which means that no authentication took place. -/
def ofObject (x : Ber.Object) : Decoded (Option CallerAuthentication) := do
  let a ← (← taggedElements "auth-result" x).foldlM set {}
  pure (if a = {} then none else some a)

end CallerAuthentication

structure Integrity where
  trustBoot : Status := .notSupported
  warranty : Status := .notSupported
  icd : Status := .notSupported
  kernel : Status := .notSupported
  system : Status := .notSupported
  authentication : Option CallerAuthentication := none
  deriving DecidableEq, Repr

namespace Integrity

def set (i : Integrity) (e : Nat × Ber.Object) : Decoded Integrity := do
  match e.1 with
  | 0 => pure { i with trustBoot := .ofNumber (← e.2.asInt "trust-boot") }
  | 1 => pure { i with warranty := .ofNumber (← e.2.asInt "warranty") }
  | 2 => pure { i with icd := .ofNumber (← e.2.asInt "icd") }
  | 3 => pure { i with kernel := .ofNumber (← e.2.asInt "kernel") }
  | 4 => pure { i with system := .ofNumber (← e.2.asInt "system") }
  | 5 => pure { i with authentication := ← CallerAuthentication.ofObject e.2 }
  | n => unknown "integrity-status" n

def ofObject (x : Ber.Object) : Decoded Integrity := do
  (← taggedElements "integrity-status" x).foldlM set {}

end Integrity

structure Addition where
  challenge : Option String := none
  idAttestation : Option String := none
  integrity : Option Integrity := none
  recordHash : Option Octets := none
  deriving DecidableEq, Repr

namespace Addition

def set (a : Addition) (e : Nat × Ber.Object) : Decoded Addition := do
  match e.1 with
  | 0 => pure { a with challenge := some (← e.2.asText "knox-challenge") }
  | 4 => pure { a with idAttestation := some (← e.2.asText "id-attest") }
  | 5 => pure { a with integrity := some (← Integrity.ofObject e.2) }
  | 6 => pure { a with recordHash := some (← e.2.asOctets "record-hash") }
  | n => unknown "knox" n

def decode (bs : Octets) : Decoded Addition := do
  let x ← Ber.Object.ofOctets "knox" bs
  (← taggedElements "knox" x).foldlM set {}

end Addition

end Knox

structure KnoxRecord where
  keyDescription : KeyDescription
  addition : Knox.Addition
  deriving DecidableEq

/-- From the standard extension and the Knox extension, read in this order. -/
def KnoxRecord.decode (standard knox : Octets) : Decoded KnoxRecord := do
  let description ← KeyDescription.decode standard
  pure ⟨description, ← Knox.Addition.decode knox⟩

end AttestedKey
