import AttestedKey.Ber.CharacterSet
import AttestedKey.Ber.Object
import AttestedKey.Ber.Time

/-! Reading the Basic Encoding Rules. Universal SEQUENCE and SET are read down to their leaves, at
most `maxDepth` deep; what is outside the universal class stays raw. Lengths need not be minimal
and may be indefinite where the constructed bit is set. -/

namespace AttestedKey.Ber

structure Header where
  tagClass : TagClass
  constructed : Bool
  tag : Nat
  /-- `none` is the indefinite form. -/
  length : Option Nat
  deriving Repr

/-- Base 128 digits of a tag number, at most `left`, kept in 32 bits. -/
def tagDigits : Nat → Nat → Reader Nat
  | left + 1, high, b :: bs =>
    let n := (high * 128 + b.toNat % 128) % 0x100000000
    if b < 0x80 then some (n, bs) else tagDigits left n bs
  | _, _, _ => none

def tagNumber (lead : UInt8) (bs : Octets) : Option (Nat × Octets) :=
  let n := lead.toNat % 32
  if n = 31 then tagDigits 5 0 bs else some (n, bs)

def tagClass (lead : UInt8) : TagClass :=
  match lead.toNat / 64 with
  | 0 => .universal
  | 1 => .application
  | 2 => .context
  | _ => .privateUse

/-- A length: short, long with any number of octets whose value fits 64 bits, or indefinite. -/
def length : Reader (Option Nat)
  | [] => none
  | b :: bs =>
    if b < 0x80 then some (some b.toNat, bs)
    else if b = 0x80 then some (none, bs)
    else if b = 0xFF then none
    else do
      let (digits, rest) ← Octets.split? (b.toNat - 0x80) bs
      let n := Octets.toNat digits
      if n < 0x10000000000000000 then some (some n, rest) else none

/-- Only a constructed object may be of indefinite length. -/
def header : Reader Header
  | [] => none
  | lead :: bs => do
    let (tag, bs) ← tagNumber lead bs
    let (len, bs) ← length bs
    let constructed := lead.toNat / 32 % 2 = 1
    if len.isNone ∧ ¬constructed then none
    else some (⟨tagClass lead, constructed, tag, len⟩, bs)

/-- The object that ends contents of indefinite length: an empty one with tag number 0, of any
class. -/
def Header.endsContents (h : Header) : Bool := h.tag = 0 && h.length = some 0

def skipItems (item : Octets → Option (Octets × Bool)) : Nat → Octets → Option Octets
  | 0, _ => none
  | n + 1, bs => do
    let (rest, ended) ← item bs
    if ended then some rest else skipItems item n rest

def skip : Nat → Header → Octets → Option (Octets × Bool)
  | 0, _, _ => none
  | depth + 1, h, bs =>
    match h.length with
    | some n =>
      if h.endsContents then some (bs, true)
      else (Octets.split? n bs).map fun (_, rest) => (rest, false)
    | none =>
      let item (bs : Octets) : Option (Octets × Bool) := do
        let (h, rest) ← header bs
        skip depth h rest
      (skipItems item (bs.length + 1) bs).map fun rest => (rest, false)

/-- The raw content behind a header, for indefinite lengths without the two octets of its end. -/
def content (depth : Nat) (h : Header) (bs : Octets) : Option (Octets × Octets) :=
  match h.length with
  | some n => if depth = 0 then none else Octets.split? n bs
  | none => do
    let (rest, _) ← skip depth h bs
    pure (bs.take (bs.length - rest.length - 2), rest)

def endOfContents (bs : Octets) : Option Octets :=
  match header bs with
  | some (h, rest) => if h.endsContents then some rest else none
  | none => none

def items (item : Reader Object) (len : Option Nat) (bs : Octets) : Option (List Object × Octets) :=
  match len with
  | some n => do
    let (inner, rest) ← Octets.split? n bs
    pure (← Reader.all item inner, rest)
  | none => Reader.untilMark endOfContents item bs

def leaf? (h : Header) (bs : Octets) : Option Object :=
  match StringType.ofTag? h.tag with
  | some t => if h.constructed then none else (t.text? bs).map (.characters h.tag)
  | none =>
    match h.tag with
    | 0 => if bs.isEmpty then some (.other 0 bs) else none
    | 1 =>
      match h.length, bs with
      | some _, [b] => some (.boolean (b != 0))
      | _, _ => none
    | 2 => some (.integer bs)
    | 3 => if h.constructed ∨ bs.isEmpty then none else some (.other 3 bs)
    | 4 => some (.octetString bs)
    | 10 =>
      let n := Octets.toNat bs
      if h.constructed ∨ 0x100000000 ≤ n then none else some (.enumerated n)
    | 23 => if h.constructed then none else (utcTime? bs).map fun _ => .other 23 bs
    | 24 => if h.constructed then none else (generalizedTime? bs).map fun _ => .other 24 bs
    | tag => some (.other tag bs)

/-- One object that holds at most `depth` levels of SEQUENCE and SET. -/
def object : Nat → Reader Object
  | 0, _ => none
  | depth + 1, bs => do
    let (h, bs) ← header bs
    if h.tagClass ≠ .universal then
      let (inner, rest) ← content (depth + 1) h bs
      pure (.tagged h.tagClass h.tag inner, rest)
    else if h.tag = 16 ∨ h.tag = 17 then
      if h.constructed then
        let (xs, rest) ← items (object depth) h.length bs
        pure (if h.tag = 16 then .sequence xs else .set xs, rest)
      else none
    else
      let (inner, rest) ← content (depth + 1) h bs
      pure (← leaf? h inner, rest)

def maxDepth : Nat := 50

def read : Reader Object := object maxDepth

end AttestedKey.Ber
