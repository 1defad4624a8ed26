import AttestedKey.Ber.Time
import AttestedKey.Der.Element
import AttestedKey.Der.Writer
import AttestedKey.Instant

/-! The one distinguished encoding of a certificate. `certificate?` reads a certificate whose
elements are encoded in the distinguished way and gives its encoding with sets in order and default
values left out. -/

namespace AttestedKey.Canonical

open Der (Element)

def le : Octets → Octets → Bool
  | [], _ => true
  | _ :: _, [] => false
  | a :: as, b :: bs => a < b || (a == b && le as bs)

def distinct : List Octets → Bool
  | a :: b :: rest => a != b && distinct (b :: rest)
  | _ => true

/-- The members of a SET in order; none of them may be there twice. -/
def sorted? (members : List Octets) : Option (List Octets) :=
  let members := members.mergeSort le
  if distinct members then some members else none

/-- One identifier octet and the shortest length. -/
def isShort (e : Element) : Bool :=
  match e.header with
  | _ :: length => length == Der.writeLength e.content.length
  | [] => false

def isKnownTag (e : Element) : Bool :=
  match e.tagClass with
  | .universal =>
    if e.constructed then e.tag == 16 || e.tag == 17
    else [1, 2, 3, 4, 5, 6, 9, 10, 12, 18, 19, 20, 21, 22, 23, 24, 26, 27, 30].contains e.tag
  | _ => true

def readAny : Reader Element := fun bs => do
  let (e, rest) ← Element.read bs
  if isShort e && isKnownTag e then some (e, rest) else none

def all (bs : Octets) : Option (List Element) := Reader.all readAny bs

def sequence? (e : Element) : Option (List Element) :=
  if e.isUniversal 16 true then all e.content else none

def set? (e : Element) : Option (List Element) :=
  if e.isUniversal 17 true then all e.content else none

/-- Numbers behind the first octet fit 32 bits and take at most five digits. -/
def isOidTail (n digits : Nat) : Octets → Bool
  | [] => digits == 0
  | b :: bs =>
    let n := n * 128 + b.toNat % 128
    n < 0x100000000 && digits < 5 && if b < 0x80
      then isOidTail 0 0 bs else isOidTail n (digits + 1) bs

/-- Three to thirty-nine octets, the first of them for a pair of numbers that exists. -/
def isOid (e : Element) : Bool :=
  e.isUniversal 6 false && 3 ≤ e.content.length && e.content.length ≤ 39 &&
    match e.content with
    | b :: bs => b < 120 && isOidTail 0 0 bs
    | [] => false

def isSerial (e : Element) : Bool :=
  e.isUniversal 2 false && Der.isIntegerContent e.content && e.content.length ≤ 21

def isBitsContent (content : Octets) : Bool :=
  match content with
  | [] => false
  | [unused] => unused == 0
  | unused :: _ => unused < 8

def isBits (e : Element) : Bool := e.isUniversal 3 false && isBitsContent e.content

def isAlgorithm (e : Element) : Bool :=
  match sequence? e with
  | some [oid] | some [oid, _] => isOid oid
  | _ => false

def isAttribute (e : Element) : Bool :=
  match sequence? e with
  | some [type, _] => isOid type
  | _ => false

def name? (e : Element) : Option Octets := do
  let sets ← (← sequence? e).mapM fun s => do
    let attributes ← set? s
    if attributes.all isAttribute then
      pure (Der.write 0x31 (← sorted? (attributes.map Element.raw)).flatten)
    else none
  pure (Der.writeSequence sets)

/-- A point in time in the only form allowed, from 1970 on. -/
def isTime (e : Element) : Bool :=
  let is (t : Ber.TimeText) (year : Nat) : Bool :=
    t.zone == .utc && t.millisecond.isNone && 1970 ≤ year &&
      (CivilDate.ofParts? year t.month t.day).isSome
  if e.isUniversal 23 false && e.content.length == 13 then
    (Ber.utcTime? e.content).any fun t =>
      is t (if t.year < 50 then 2000 + t.year else 1900 + t.year)
  else if e.isUniversal 24 false && e.content.length == 15 then
    (Ber.generalizedTime? e.content).any fun t => is t t.year
  else false

def isValidity (e : Element) : Bool :=
  match sequence? e with
  | some [notBefore, notAfter] => isTime notBefore && isTime notAfter
  | _ => false

def isKeyInfo (e : Element) : Bool :=
  match sequence? e with
  | some [algorithm, key] => isAlgorithm algorithm && isBits key
  | _ => false

/-- An extension; a critical mark that is false is left out. -/
def extension? (e : Element) : Option Octets := do
  match ← sequence? e with
  | [oid, value] => if isOid oid && value.isUniversal 4 false then some e.raw else none
  | [oid, critical, value] =>
    if isOid oid && critical.isUniversal 1 false && value.isUniversal 4 false then
      match critical.content with
      | [0xFF] => some e.raw
      | [0x00] => some (Der.writeSequence [oid.raw, value.raw])
      | _ => none
    else none
  | _ => none

def isContext (tag : Nat) (constructed : Bool) (e : Element) : Bool :=
  e.tagClass == .context && e.tag == tag && e.constructed == constructed

/-- The wrapped version, which is left out when it is the first. -/
def version? (e : Element) : Option Octets := do
  match ← all e.content with
  | [number] =>
    if number.isUniversal 2 false then
      match number.content with
      | [0x00] => some []
      | [0x01] | [0x02] => some e.raw
      | _ => none
    else none
  | _ => none

def extensions? (e : Element) : Option Octets := do
  match ← all e.content with
  | [list] => do
    let list ← (← sequence? list).mapM extension?
    pure (Der.write 0xA3 (Der.writeSequence list))
  | _ => none

def optionalPart (is : Element → Bool) (part? : Element → Option Octets) :
    List Element → Option (Octets × List Element)
  | [] => some ([], [])
  | e :: rest => if is e then (part? e).map fun part => (part, rest) else some ([], e :: rest)

def uniqueId? (e : Element) : Option Octets := if isBitsContent e.content then some e.raw else none

def signed? (e : Element) : Option Octets := do
  let (version, parts) ← optionalPart (isContext 0 true) version? (← sequence? e)
  match parts with
  | serial :: algorithm :: issuer :: validity :: subject :: keyInfo :: rest => do
    let issuer ← name? issuer
    let subject ← name? subject
    let (issuerId, rest) ← optionalPart (isContext 1 false) uniqueId? rest
    let (subjectId, rest) ← optionalPart (isContext 2 false) uniqueId? rest
    let (extensions, rest) ← optionalPart (isContext 3 true) extensions? rest
    if isSerial serial && isAlgorithm algorithm && isValidity validity && isKeyInfo keyInfo &&
        rest.isEmpty then
      some (Der.writeSequence [version, serial.raw, algorithm.raw, issuer, validity.raw, subject,
        keyInfo.raw, issuerId, subjectId, extensions])
    else none
  | _ => none

def certificate? (der : Octets) : Option Octets := do
  let (e, rest) ← readAny der
  if !rest.isEmpty then none else
  match ← sequence? e with
  | [signed, algorithm, signature] =>
    if isAlgorithm algorithm && isBits signature then
      pure (Der.writeSequence [← signed? signed, algorithm.raw, signature.raw])
    else none
  | _ => none

end AttestedKey.Canonical
