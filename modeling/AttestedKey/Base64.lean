import AttestedKey.Octets

/-! Base64: three octets as four characters of an alphabet, `=` filling the last four. Reading is
strict: no other characters, padding exactly as writing puts it, and no stray low bits. -/

namespace AttestedKey.Base64

inductive Alphabet
  | standard
  | urlSafe
  deriving DecidableEq

def Alphabet.char (a : Alphabet) (n : Nat) : Char :=
  if n < 26 then Char.ofNat (65 + n)
  else if n < 52 then Char.ofNat (71 + n)
  else if n < 62 then Char.ofNat (n - 4)
  else match a, n with
    | .standard, 62 => '+'
    | .standard, _ => '/'
    | .urlSafe, 62 => '-'
    | .urlSafe, _ => '_'

def Alphabet.value? (a : Alphabet) (c : Char) : Option Nat :=
  let n := c.toNat
  if 65 ≤ n ∧ n ≤ 90 then some (n - 65)
  else if 97 ≤ n ∧ n ≤ 122 then some (n - 71)
  else if 48 ≤ n ∧ n ≤ 57 then some (n + 4)
  else match a, c with
    | .standard, '+' => some 62
    | .standard, '/' => some 63
    | .urlSafe, '-' => some 62
    | .urlSafe, '_' => some 63
    | _, _ => none

def encodeChars (a : Alphabet) : Octets → List Char
  | [] => []
  | [x] =>
    let n := x.toNat * 16
    [a.char (n / 64), a.char (n % 64), '=', '=']
  | [x, y] =>
    let n := (x.toNat * 256 + y.toNat) * 4
    [a.char (n / 4096), a.char (n / 64 % 64), a.char (n % 64), '=']
  | x :: y :: z :: rest =>
    let n := (x.toNat * 256 + y.toNat) * 256 + z.toNat
    a.char (n / 262144) :: a.char (n / 4096 % 64) :: a.char (n / 64 % 64) :: a.char (n % 64) ::
      encodeChars a rest

def encode (a : Alphabet) (bs : Octets) : String := String.ofList (encodeChars a bs)

def decodeChars (a : Alphabet) : List Char → Option Octets
  | [] => some []
  | [w, x, '=', '='] => do
    let n := (← a.value? w) * 64 + (← a.value? x)
    if n % 16 = 0 then some [UInt8.ofNat (n / 16)] else none
  | [w, x, y, '='] => do
    let n := ((← a.value? w) * 64 + (← a.value? x)) * 64 + (← a.value? y)
    if n % 4 = 0 then some [UInt8.ofNat (n / 1024), UInt8.ofNat (n / 4)] else none
  | w :: x :: y :: z :: rest => do
    let n := (((← a.value? w) * 64 + (← a.value? x)) * 64 + (← a.value? y)) * 64 + (← a.value? z)
    let tail ← decodeChars a rest
    pure (UInt8.ofNat (n / 65536) :: UInt8.ofNat (n / 256) :: UInt8.ofNat n :: tail)
  | _ => none

def decode? (a : Alphabet) (s : String) : Option Octets := decodeChars a s.toList

end AttestedKey.Base64
