import AttestedKey.Octets

/-! UTF-8. `decode?` takes well-formed text only; `decodeLossy` puts U+FFFD for every maximal
ill-formed part. Both look at one lead octet, which fixes how many octets follow and the range of
the first of them; the others are in 80..BF. -/

namespace AttestedKey.Utf8

/-- What a lead octet announces: its own payload bits, how many octets follow, and the range of the
first of these. -/
structure Lead where
  payload : Nat
  following : Nat
  low : Nat
  high : Nat

/-- The narrowed ranges after E0, ED, F0 and F4 keep out overlong forms, surrogates and numbers
above 10FFFF. -/
def lead? (b : UInt8) : Option Lead :=
  let n := b.toNat
  if n < 0x80 then some ⟨n, 0, 0x80, 0xBF⟩
  else if n < 0xC2 then none
  else if n < 0xE0 then some ⟨n - 0xC0, 1, 0x80, 0xBF⟩
  else if n = 0xE0 then some ⟨0, 2, 0xA0, 0xBF⟩
  else if n = 0xED then some ⟨0xD, 2, 0x80, 0x9F⟩
  else if n < 0xF0 then some ⟨n - 0xE0, 2, 0x80, 0xBF⟩
  else if n = 0xF0 then some ⟨0, 3, 0x90, 0xBF⟩
  else if n < 0xF4 then some ⟨n - 0xF0, 3, 0x80, 0xBF⟩
  else if n = 0xF4 then some ⟨4, 3, 0x80, 0x8F⟩
  else none

/-- The rest of a character after `following` more octets: its number, or `none` at the first octet
out of range, which is left unread. -/
def tail (payload : Nat) : Nat → Nat → Nat → Octets → Option Nat × Octets
  | 0, _, _, bs => (some payload, bs)
  | _ + 1, _, _, [] => (none, [])
  | following + 1, low, high, b :: bs =>
    if low ≤ b.toNat ∧ b.toNat ≤ high then
      tail (payload * 64 + b.toNat % 64) following 0x80 0xBF bs
    else (none, b :: bs)

/-- One character or one maximal ill-formed part (`none`), and what follows it. -/
def step (b : UInt8) (bs : Octets) : Option Char × Octets :=
  match lead? b with
  | none => (none, bs)
  | some l =>
    let (n, rest) := tail l.payload l.following l.low l.high bs
    (n.map Char.ofNat, rest)

def piecesOnto : Nat → List (Option Char) → Octets → List (Option Char)
  | 0, found, _ => found.reverse
  | _ + 1, found, [] => found.reverse
  | fuel + 1, found, b :: bs =>
    let (c, rest) := step b bs
    piecesOnto fuel (c :: found) rest

def pieces (bs : Octets) : List (Option Char) := piecesOnto bs.length [] bs

def decode? (bs : Octets) : Option String := ((pieces bs).mapM id).map String.ofList

/-- The text, with U+FFFD for every maximal ill-formed part. -/
def decodeLossy (bs : Octets) : String :=
  String.ofList ((pieces bs).map fun c => c.getD '\uFFFD')

def encodeChar (c : Char) : Octets :=
  let n := c.toNat
  let low (k : Nat) : UInt8 := UInt8.ofNat (0x80 + k % 64)
  if n < 0x80 then [UInt8.ofNat n]
  else if n < 0x800 then [UInt8.ofNat (0xC0 + n / 64), low n]
  else if n < 0x10000 then [UInt8.ofNat (0xE0 + n / 4096), low (n / 64), low n]
  else [UInt8.ofNat (0xF0 + n / 262144), low (n / 4096), low (n / 64), low n]

def encode (s : String) : Octets := s.toList.flatMap encodeChar

end AttestedKey.Utf8
