import AttestedKey.Utf8

/-! The character string types and what each lets in. A string's text is its content read as UTF-8,
also where the type is a BMPString. -/

namespace AttestedKey.Ber

inductive StringType
  | objectDescriptor | utf8 | numeric | printable | teletex | videotex | ia5 | graphic | visible
  | general | bmp
  deriving DecidableEq, Repr

namespace StringType

def ofTag? : Nat → Option StringType
  | 7 => some objectDescriptor
  | 12 => some utf8
  | 18 => some numeric
  | 19 => some printable
  | 20 => some teletex
  | 21 => some videotex
  | 22 => some ia5
  | 25 => some graphic
  | 26 => some visible
  | 27 => some general
  | 30 => some bmp
  | _ => none

def tag : StringType → Nat
  | objectDescriptor => 7
  | utf8 => 12
  | numeric => 18
  | printable => 19
  | teletex => 20
  | videotex => 21
  | ia5 => 22
  | graphic => 25
  | visible => 26
  | general => 27
  | bmp => 30

theorem ofTag?_tag (t : StringType) : ofTag? t.tag = some t := by cases t <;> rfl

end StringType

def isDigit (b : UInt8) : Bool := 0x30 ≤ b && b ≤ 0x39

def isLetter (b : UInt8) : Bool := (0x41 ≤ b && b ≤ 0x5A) || (0x61 ≤ b && b ≤ 0x7A)

def isPrintable (b : UInt8) : Bool :=
  isLetter b || isDigit b || (Octets.ofAscii " '()+,-./:=?").contains b

def units16? : Octets → Option (List Nat)
  | [] => some []
  | [_] => none
  | a :: b :: rest => (units16? rest).map ((a.toNat * 256 + b.toNat) :: ·)

def isLeadingSurrogate (u : Nat) : Bool := 0xD800 ≤ u && u < 0xDC00

def isTrailingSurrogate (u : Nat) : Bool := 0xDC00 ≤ u && u < 0xE000

/-- The characters of UTF-16; `none` when a surrogate stands alone. -/
def decodeUnits16? : List Nat → Option (List Char)
  | [] => some []
  | [u] => if isLeadingSurrogate u || isTrailingSurrogate u then none else some [Char.ofNat u]
  | u :: v :: rest =>
    if isLeadingSurrogate u then
      if isTrailingSurrogate v then
        (decodeUnits16? rest).map (Char.ofNat (0x10000 + (u - 0xD800) * 0x400 + (v - 0xDC00)) :: ·)
      else none
    else if isTrailingSurrogate u then none
    else (decodeUnits16? (v :: rest)).map (Char.ofNat u :: ·)

def decodeUtf16? (bs : Octets) : Option String :=
  (units16? bs).bind fun us => (decodeUnits16? us).map String.ofList

/-- Whether the type lets the content in, its form as UTF-8 apart. -/
def StringType.admits (t : StringType) (bs : Octets) : Bool :=
  match t with
  | .utf8 => true
  | .numeric => bs.all fun b => isDigit b || b == 0x20
  | .printable => bs.all isPrintable
  | .ia5 | .general | .graphic | .objectDescriptor => bs.all (· < 0x80)
  | .visible | .teletex | .videotex => bs.all fun b => 0x20 ≤ b && b ≤ 0x7F
  | .bmp => (decodeUtf16? bs).isSome

def StringType.text? (t : StringType) (bs : Octets) : Option String :=
  if t.admits bs then Utf8.decode? bs else none

end AttestedKey.Ber
