/-! Serial numbers as keys: the spellings of one hexadecimal number become one. -/

namespace AttestedKey.SerialKey

/-- The characters with the property White_Space. -/
def isWhiteSpace (c : Char) : Bool :=
  let n := c.toNat
  (0x09 ≤ n && n ≤ 0x0D) || n == 0x20 || n == 0x85 || n == 0xA0 || n == 0x1680 ||
    (0x2000 ≤ n && n ≤ 0x200A) ||
    n == 0x2028 || n == 0x2029 || n == 0x202F || n == 0x205F || n == 0x3000

def trimChars (cs : List Char) : List Char :=
  ((cs.dropWhile isWhiteSpace).reverse.dropWhile isWhiteSpace).reverse

/-- No white space around it, lower case, no leading zeros; zero is `0`, and nothing stays
nothing. -/
def ofChars (cs : List Char) : List Char :=
  let trimmed := (trimChars cs).map Char.toLower
  match trimmed.dropWhile (· == '0') with
  | [] => if trimmed.isEmpty then [] else ['0']
  | significant => significant

def ofText (s : String) : String := String.ofList (ofChars s.toList)

end AttestedKey.SerialKey
