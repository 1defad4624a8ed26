import AttestedKey.Cbor.Reader
import AttestedKey.Word64

/-! Why provisioning fails, and reading data items that have to be of a certain shape. -/

namespace AttestedKey

inductive ProvisioningError where
  | network (detail : String)
  | notRegistered
  | server (status : Nat) (body : String)
  | malformed (detail : String)
  | device (detail : String)
  deriving DecidableEq, Repr

namespace ProvisioningError

def message : ProvisioningError → String
  | network d => "Network error: " ++ d
  | notRegistered => "Device not registered"
  | server status body => s!"Server error {status}: {body}"
  | malformed d => "Malformed response: " ++ d
  | device d => "Device error: " ++ d

def detail : ProvisioningError → String
  | network d | malformed d | device d => d
  | e => e.message

def isRetryable : ProvisioningError → Bool
  | network _ => true
  | _ => false

end ProvisioningError

/-! Values whose shape is asked for; `what` names the element in the error. -/

namespace Provisioning

open Cbor (Item)

abbrev Shaped := Except ProvisioningError

def item (what : String) (bs : Octets) : Shaped Item :=
  match Cbor.read bs with
  | none => .error (.malformed what)
  | some (x, rest) =>
    if rest.isEmpty then .ok x else .error (.malformed s!"{what}: {rest.length} trailing bytes")

def required {α : Type} (what kind : String) : Option α → Shaped α
  | some x => .ok x
  | none => .error (.malformed s!"{what} MUST be {kind}")

def array (what : String) (x : Item) : Shaped (List Item) := required what "array" x.array?

def octets (what : String) (x : Item) : Shaped Octets := required what "bstr" x.bytes?

def number (what : String) (x : Item) : Shaped Int64 := required what "int" (x.int?.bind int64?)

def nth (what : String) (i : Nat) (xs : List Item) : Shaped Item :=
  match xs[i]? with
  | some x => .ok x
  | none => .error (.malformed s!"{what}: expecting at least {i + 1} items")

end Provisioning

end AttestedKey
