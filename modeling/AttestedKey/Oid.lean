import AttestedKey.Octets

/-! Object identifiers in dotted form. The first octet stands for the first two numbers, its
quotient and remainder by 40; each later number is written in base 128. -/

namespace AttestedKey.Oid

/-- The numbers behind those already found, `n` being the digits read of the next one. All digits
of a number but its last have the high bit set. -/
def arcsOnto (found : List Nat) (n : Nat) : Octets → List Nat
  | [] => found.reverse
  | [b] => ((n * 128 + b.toNat % 128) :: found).reverse
  | b :: bs =>
    let n := n * 128 + b.toNat % 128
    if b < 0x80 then arcsOnto (n :: found) 0 bs else arcsOnto found n bs

def arcs : Octets → List Nat
  | [] => []
  | [0] => [0]
  | b :: bs => b.toNat / 40 :: b.toNat % 40 :: arcsOnto [] 0 bs

def text (content : Octets) : String := ".".intercalate ((arcs content).map toString)

/-- Whether the last number is complete, and none starts with a zero digit that it does not need. -/
def isWellFormed (content : Octets) : Bool :=
  content.getLast?.any (· < 0x80) &&
    (content.zip ((0 : UInt8) :: content)).all fun (b, before) => !(b == 0x80 && before < 0x80)

end AttestedKey.Oid
