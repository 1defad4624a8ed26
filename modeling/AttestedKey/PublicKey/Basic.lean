import AttestedKey.Certificate.Algorithm
import AttestedKey.Der.Writer
import AttestedKey.PublicKey.Curve

/-! Public keys as certificates carry them, and their one own encoding. -/

namespace AttestedKey

open Der (Element)

/-- How the point of a key is written. -/
inductive PointForm
  | compressed
  | uncompressed
  | hybrid
  deriving DecidableEq, Repr

inductive PublicKey where
  | rsa (modulus exponent : Nat)
  | ec (curve : Curve) (form : PointForm) (x y : Nat)
  | ed25519 (point : Octets)
  deriving DecidableEq, Repr

namespace PublicKey

def rsaOid : Octets := [0x2A, 0x86, 0x48, 0x86, 0xF7, 0x0D, 0x01, 0x01, 0x01]

def ecOid : Octets := [0x2A, 0x86, 0x48, 0xCE, 0x3D, 0x02, 0x01]

def ed25519Oid : Octets := [0x2B, 0x65, 0x70]

def curveOid : Curve → Octets
  | .p256 => [0x2A, 0x86, 0x48, 0xCE, 0x3D, 0x03, 0x01, 0x07]
  | .p384 => [0x2B, 0x81, 0x04, 0x00, 0x22]
  | .p521 => [0x2B, 0x81, 0x04, 0x00, 0x23]

def curveOfOid? (oid : Octets) : Option Curve :=
  [Curve.p256, Curve.p384, Curve.p521].find? fun c => curveOid c == oid

/-- Modulus and exponent, whose octets count as unsigned. -/
def rsaOfBits? (bits : Octets) : Option PublicKey := do
  let (key, _) ← Element.read bits
  match ← key.sequence? with
  | [n, e] =>
    if n.isUniversal 2 false && e.isUniversal 2 false then
      some (.rsa (Octets.toNat n.content) (Octets.toNat e.content))
    else none
  | _ => none

def pointOfBits? (c : Curve) : Octets → Option PublicKey
  | [] => none
  | lead :: coordinates => do
    let x := Octets.toNat (coordinates.take c.fieldOctets)
    let y := Octets.toNat (coordinates.drop c.fieldOctets)
    if lead = 2 ∨ lead = 3 then
      if coordinates.length ≠ c.fieldOctets ∨ c.prime ≤ x then none
      else (c.ordinate? x (lead == 3)).map fun y => .ec c .compressed x y
    else if coordinates.length ≠ 2 * c.fieldOctets ∨ !c.contains x y then none
    else if lead = 4 then some (.ec c .uncompressed x y)
    else if lead = 6 + UInt8.ofNat (y % 2) then some (.ec c .hybrid x y)
    else none

/-- The key that the encoding stands for, when it is one of a known kind. -/
def ofKeyInfo? (bs : Octets) : Option PublicKey := do
  let (algorithm, inner) ← AlgorithmIdentifier.read (← Element.numbered 16 bs).1.content
  let (bits, _) ← BitString.read inner
  if algorithm.oid = rsaOid then rsaOfBits? bits.octets
  else if algorithm.oid = ecOid then
    let parameters ← algorithm.parameters
    if parameters.isUniversal 6 false
      then pointOfBits? (← curveOfOid? parameters.content) bits.octets
    else none
  else if algorithm.oid = ed25519Oid ∧ algorithm.parameters.isNone ∧ bits.octets.length = 32 then
    some (.ed25519 bits.octets)
  else none

def pointBits (c : Curve) (form : PointForm) (x y : Nat) : Octets :=
  let odd := UInt8.ofNat (y % 2)
  let x := Octets.ofNat c.fieldOctets x
  let y := Octets.ofNat c.fieldOctets y
  match form with
  | .compressed => (2 + odd) :: x
  | .uncompressed => 4 :: (x ++ y)
  | .hybrid => (6 + odd) :: (x ++ y)

/-- The encoding of the key: shortest lengths and numbers, parameters as the algorithm has them. -/
def keyInfo : PublicKey → Octets
  | rsa n e => Der.writeSequence [
      Der.writeSequence [Der.writeOid rsaOid, Der.null],
      Der.writeBits (Der.writeSequence [Der.writeNatural n, Der.writeNatural e])]
  | ec c form x y => Der.writeSequence [
      Der.writeSequence [Der.writeOid ecOid, Der.writeOid (curveOid c)],
      Der.writeBits (pointBits c form x y)]
  | ed25519 point => Der.writeSequence [
      Der.writeSequence [Der.writeOid ed25519Oid],
      Der.writeBits point]

end PublicKey

end AttestedKey
