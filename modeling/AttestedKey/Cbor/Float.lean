import AttestedKey.Octets

/-! Binary floating point numbers by their bits, in the three widths a data item can have. Widening
is exact and makes a NaN quiet; narrowing is possible where widening gives the number back. -/

namespace AttestedKey.Cbor

structure FloatFormat where
  exponentBits : Nat
  fractionBits : Nat

namespace FloatFormat

def half : FloatFormat := ⟨5, 10⟩
def single : FloatFormat := ⟨8, 23⟩

variable (f : FloatFormat)

def octets : Nat := (1 + f.exponentBits + f.fractionBits) / 8

def double (sign exponent fraction : Nat) : Nat := (sign <<< 63) + (exponent <<< 52) + fraction

def bias : Nat := (1 <<< (f.exponentBits - 1)) - 1

def maxExponent : Nat := (1 <<< f.exponentBits) - 1

def widen (bits : Nat) : Nat :=
  let sign := bits >>> (f.exponentBits + f.fractionBits)
  let exponent := (bits >>> f.fractionBits) % (1 <<< f.exponentBits)
  let fraction := bits % (1 <<< f.fractionBits)
  let shift := 52 - f.fractionBits
  if exponent = f.maxExponent then
    if fraction = 0 then double sign 2047 0
    else double sign 2047 ((1 <<< 51) ||| (fraction <<< shift))
  else if exponent = 0 then
    if fraction = 0 then double sign 0 0
    else
      -- the leading bit of the fraction becomes the hidden one
      let lead := fraction.log2
      double sign (1024 - f.bias + lead - f.fractionBits) ((fraction <<< (52 - lead)) % (1 <<< 52))
  else double sign (exponent + 1023 - f.bias) (fraction <<< shift)

def candidate (bits : Nat) : Nat :=
  let sign := (bits >>> 63) <<< (f.exponentBits + f.fractionBits)
  let exponent := (bits >>> 52) % 2048
  let fraction := bits % (1 <<< 52)
  let shift := 52 - f.fractionBits
  if exponent = 2047 then sign + (f.maxExponent <<< f.fractionBits) + (fraction >>> shift)
  else if 1023 < exponent + f.bias then
    if exponent + f.bias - 1023 < f.maxExponent then
      sign + ((exponent + f.bias - 1023) <<< f.fractionBits) + (fraction >>> shift)
    else sign
  else sign + (((1 <<< 52) + fraction) >>> (shift + 1 + 1023 - f.bias - exponent))

/-- The narrow bits, when widening them gives the double back. -/
def narrow? (bits : Nat) : Option Nat :=
  let c := f.candidate bits
  if f.widen c = bits then some c else none

end FloatFormat

end AttestedKey.Cbor
