import AttestedKey.Ber.Reader
import AttestedKey.Cbor.Reader
import AttestedKey.NumberSet
import AttestedKey.Record.DecodeError
import AttestedKey.Word64

/-! Reading one object or data item as a value of a given kind. `what` names the element in the
error. -/

namespace AttestedKey

def outOfRange (what : String) (n : Int) : DecodeError := .typeMismatch s!"{what}: {n} out of range"

def asInt64 (what : String) (n : Int) : Decoded Int64 :=
  match int64? n with
  | some i => .ok i
  | none => .error (outOfRange what n)

def asUInt64 (what : String) (n : Int) : Decoded UInt64 :=
  match uint64? n with
  | some i => .ok i
  | none => .error (outOfRange what n)

def readWhole {α : Type} (reader : Reader α) (what : String) (bs : Octets) : Decoded α :=
  match reader bs with
  | none => .error (.syntaxError what)
  | some (x, rest) =>
    if rest.isEmpty then .ok x else .error (.malformed s!"{what}: {rest.length} trailing bytes")

namespace Ber.Object

def ofOctets (what : String) (bs : Octets) : Decoded Object := readWhole Ber.read what bs

def mismatch (what kind : String) (x : Object) : DecodeError :=
  .typeMismatch s!"{what} MUST be {kind}, got Tag({x.tag})"

def asSequence (what : String) : Object → Decoded (List Object)
  | sequence xs => .ok xs
  | x => .error (x.mismatch what "SEQUENCE")

def asSet (what : String) : Object → Decoded (List Object)
  | set xs => .ok xs
  | x => .error (x.mismatch what "SET")

def asBool (what : String) : Object → Decoded Bool
  | boolean b => .ok b
  | x => .error (x.mismatch what "BOOLEAN")

def asOctets (what : String) : Object → Decoded Octets
  | octetString b => .ok b
  | x => .error (x.mismatch what "OCTET STRING")

/-- Any of the character string types. -/
def asText (what : String) : Object → Decoded String
  | characters _ s => .ok s
  | x => .error (x.mismatch what "a character string")

/-- An INTEGER of 1 to 16 octets or an ENUMERATED, before its range is looked at. -/
def asNumber (what : String) : Object → Decoded Int
  | integer content =>
    if 1 ≤ content.length ∧ content.length ≤ 16 then .ok content.toInt128.toInt
    else .error (.malformed s!"{what}: integer of {content.length} bytes")
  | enumerated n => .ok n
  | x => .error (x.mismatch what "INTEGER or ENUMERATED")

def asInt (what : String) (x : Object) : Decoded Int64 := do asInt64 what (← x.asNumber what)

def asUInt (what : String) (x : Object) : Decoded UInt64 := do asUInt64 what (← x.asNumber what)

def context? : Object → Option (Nat × Octets)
  | tagged .context n content => some (n, content)
  | _ => none

end Ber.Object

namespace Cbor.Item

def ofOctets (what : String) (bs : Octets) : Decoded Item := readWhole Cbor.read what bs

def required {α : Type} (what kind : String) (x : Option α) : Decoded α :=
  match x with
  | some x => .ok x
  | none => .error (.typeMismatch s!"{what} MUST be {kind}")

def asNumber (what : String) (x : Item) : Decoded Int := required what "integer" x.int?

def asInt (what : String) (x : Item) : Decoded Int64 := do asInt64 what (← x.asNumber what)

def asUInt (what : String) (x : Item) : Decoded UInt64 := do asUInt64 what (← x.asNumber what)

def asOctets (what : String) (x : Item) : Decoded Octets := required what "bstr" x.bytes?

def asText (what : String) (x : Item) : Decoded String := required what "tstr" x.text?

def asBool (what : String) (x : Item) : Decoded Bool := required what "bool" x.bool?

def asArray (what : String) (x : Item) : Decoded (List Item) := required what "array" x.array?

def asMap (what : String) (x : Item) : Decoded (List (Item × Item)) := required what "map" x.map?

end Cbor.Item

end AttestedKey
