/-! Octet strings as lists, which proofs can take apart, and readers over them. A reader gives what
it read and what is left; `Reader.all`, `Reader.times` and `Reader.untilMark` repeat one, and each
is a structural recursion because a reader that takes nothing is stopped by the length of its
input. -/

namespace AttestedKey

abbrev Octets := List UInt8

namespace Octets

/-- The first `n` octets and the rest; `none` when there are fewer. Walks `n` octets at most. -/
def split? (n : Nat) (bs : Octets) : Option (Octets × Octets) :=
  let front := bs.take n
  if front.length = n then some (front, bs.drop n) else none

theorem split?_append (front rest : Octets) :
    split? front.length (front ++ rest) = some (front, rest) := by
  simp [split?]

theorem eq_append_of_split? {n : Nat} {bs front rest : Octets}
    (h : split? n bs = some (front, rest)) : bs = front ++ rest ∧ front.length = n := by
  simp only [split?] at h
  split at h
  · next hn =>
    cases h
    exact ⟨(List.take_append_drop n bs).symm, hn⟩
  · cases h

def toNat (bs : Octets) : Nat := bs.foldl (fun n b => n * 256 + b.toNat) 0

/-- `n` in exactly `width` octets, most significant first; higher digits are dropped. -/
def ofNat (width n : Nat) : Octets :=
  match width with
  | 0 => []
  | width + 1 => ofNat width (n / 256) ++ [UInt8.ofNat n]

/-- How many base 256 digits `n` has; zero has none. -/
def width (n : Nat) : Nat := if n = 0 then 0 else n.log2 / 8 + 1

/-- `n` without leading zero octets; zero is the empty string. -/
def ofNatMinimal (n : Nat) : Octets := ofNat (width n) n

def signBits (bs : Octets) : BitVec 128 := if bs.head?.any (· &&& 0x80 != 0) then -1 else 0

def shiftIn (x : BitVec 128) (b : UInt8) : BitVec 128 := x <<< 8 ||| b.toBitVec.setWidth 128

/-- The octets gathered in 128 bits of two's complement, most significant octet first. -/
def toInt128 (bs : Octets) : BitVec 128 := bs.foldl shiftIn (signBits bs)

def hexDigit (n : Nat) : Char := "0123456789abcdef".toList.getD n '0'

def toHex (bs : Octets) : String :=
  String.ofList (bs.flatMap fun b => [hexDigit (b.toNat / 16), hexDigit (b.toNat % 16)])

def hexValue? (c : Char) : Option Nat :=
  let n := c.toNat
  if 48 ≤ n ∧ n ≤ 57 then some (n - 48)
  else if 97 ≤ n ∧ n ≤ 102 then some (n - 87)
  else if 65 ≤ n ∧ n ≤ 70 then some (n - 55)
  else none

def ofHexOnto (out : Octets) : List Char → Option Octets
  | [] => some out.reverse
  | [_] => none
  | a :: b :: rest =>
    match hexValue? a, hexValue? b with
    | some x, some y => ofHexOnto (UInt8.ofNat (x * 16 + y) :: out) rest
    | _, _ => none

def ofHex? (s : String) : Option Octets := ofHexOnto [] s.toList

def ofAscii (s : String) : Octets := s.toList.map fun c => UInt8.ofNat c.toNat

end Octets

/-- Takes what it needs off the front of the octets and gives the rest. -/
abbrev Reader (α : Type) := Octets → Option (α × Octets)

namespace Reader

variable {α : Type}

/-- `allWithin`, `timesOnto` and `untilWithin` collect items backwards, so that long inputs need no
deep stack. -/
def allWithin (item : Reader α) : Nat → List α → Octets → Option (List α)
  | _, xs, [] => some xs.reverse
  | 0, _, _ :: _ => none
  | n + 1, xs, bs =>
    match item bs with
    | none => none
    | some (x, rest) => allWithin item n (x :: xs) rest

def all (item : Reader α) (bs : Octets) : Option (List α) := allWithin item bs.length [] bs

def timesOnto (item : Reader α) : Nat → List α → Reader (List α)
  | 0, xs, bs => some (xs.reverse, bs)
  | n + 1, xs, bs =>
    match item bs with
    | none => none
    | some (x, rest) => timesOnto item n (x :: xs) rest

def times (item : Reader α) (n : Nat) : Reader (List α) := timesOnto item n []

def untilWithin (mark : Octets → Option Octets) (item : Reader α) : Nat → List α → Reader (List α)
  | 0, _, _ => none
  | n + 1, xs, bs =>
    match mark bs with
    | some rest => some (xs.reverse, rest)
    | none =>
      match item bs with
      | none => none
      | some (x, rest) => untilWithin mark item n (x :: xs) rest

def untilMark (mark : Octets → Option Octets) (item : Reader α) : Reader (List α) := fun bs =>
  untilWithin mark item (bs.length + 1) [] bs

end Reader

end AttestedKey
