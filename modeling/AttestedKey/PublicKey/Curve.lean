import AttestedKey.PublicKey.Modular

/-! The curves `y² = x³ - 3x + b` over a prime field that keys are on, and sums of their points. A
point is computed with in the coordinates `(x / z², y / z³)`, which need no division; `z = 0` is
infinity. -/

namespace AttestedKey

inductive Curve
  | p256
  | p384
  | p521
  deriving DecidableEq, Repr

namespace Curve

def prime : Curve → Nat
  | p256 => 0xffffffff00000001000000000000000000000000ffffffffffffffffffffffff
  | p384 =>
    0xfffffffffffffffffffffffffffffffffffffffffffffffffffffffffffffffeffffffff0000000000000000ffffffff
  | p521 => (1 <<< 521) - 1

def b : Curve → Nat
  | p256 => 0x5ac635d8aa3a93e7b3ebbd55769886bc651d06b0cc53b0f63bce3c3e27d2604b
  | p384 =>
    0xb3312fa7e23ee7e4988e056be3f82d19181d9c6efe8141120314088f5013875ac656398d8a2ed19d2a85c8edd3ec2aef
  | p521 =>
    0x51953eb9618e1c9a1f929a21a0b68540eea2da725b99b315f3b8b489918ef109e156193951ec7e937b1652c0bd3bb1bf073573df883d2c34f1ef451fd46b503f00

def order : Curve → Nat
  | p256 => 0xffffffff00000000ffffffffffffffffbce6faada7179e84f3b9cac2fc632551
  | p384 =>
    0xffffffffffffffffffffffffffffffffffffffffffffffffc7634d81f4372ddf581a0db248b0a77aecec196accc52973
  | p521 =>
    0x1fffffffffffffffffffffffffffffffffffffffffffffffffffffffffffffffffa51868783bf2f966b7fcc0148f709a5d03bb5c9b8899c47aebb6fb71e91386409

def generator : Curve → Nat × Nat
  | p256 => (0x6b17d1f2e12c4247f8bce6e563a440f277037d812deb33a0f4a13945d898c296,
      0x4fe342e2fe1a7f9b8ee7eb4a7c0f9e162bce33576b315ececbb6406837bf51f5)
  | p384 =>
    (0xaa87ca22be8b05378eb1c71ef320ad746e1d3b628ba79b9859f741e082542a385502f25dbf55296c3a545e3872760ab7,
      0x3617de4a96262c6f5d9e98bf9292dc29f8f41dbd289a147ce9da3113b5f0b8c00a60b1ce1d7e819d7a431d7c90ea0e5f)
  | p521 =>
    (0xc6858e06b70404e9cd9e3ecb662395b4429c648139053fb521f828af606b4d3dbaa14b5e77efe75928fe1dc127a2ffa8de3348b3c1856a429bf97e7e31c2e5bd66,
      0x11839296a789a3bc0045c8a5fb42c7d1bd998f54449579b446817afbd17273e662c97ee72995ef42640c550b9013fad0761353c7086a272c24088be94769fd16650)

def fieldOctets : Curve → Nat
  | p256 => 32
  | p384 => 48
  | p521 => 66

def orderBits : Curve → Nat
  | p256 => 256
  | p384 => 384
  | p521 => 521

def cubic (c : Curve) (x : Nat) : Nat := (x * x % c.prime * x + (c.prime - 3) * x + c.b) % c.prime

def contains (c : Curve) (x y : Nat) : Bool :=
  x < c.prime && y < c.prime && y * y % c.prime == c.cubic x

/-- The coordinate `y` of the given parity; the prime is 3 modulo 4. -/
def ordinate? (c : Curve) (x : Nat) (odd : Bool) : Option Nat :=
  let y := Modular.pow c.prime (c.cubic x) ((c.prime + 1) / 4)
  let y := if (y % 2 == 1) = odd then y else c.prime - y
  if c.contains x y then some y else none

structure Point where
  x : Nat
  y : Nat
  z : Nat

def infinity : Point := ⟨1, 1, 0⟩

def double (c : Curve) (a : Point) : Point :=
  let p := c.prime
  if a.z = 0 ∨ a.y = 0 then infinity else
    let yy := a.y * a.y % p
    let s := 4 * a.x * yy % p
    let zz := a.z * a.z % p
    let m := 3 * (a.x + zz) * (a.x + p - zz) % p
    let x := Modular.sub p (m * m) (2 * s % p)
    let y := Modular.sub p (m * (s + p - x)) (8 * yy * yy % p)
    ⟨x, y, 2 * a.y * a.z % p⟩

def add (c : Curve) (a b : Point) : Point :=
  let p := c.prime
  if a.z = 0 then b
  else if b.z = 0 then a
  else
    let azz := a.z * a.z % p
    let bzz := b.z * b.z % p
    let u := a.x * bzz % p
    let s := a.y * bzz % p * b.z % p
    let h := Modular.sub p (b.x * azz) u
    let r := Modular.sub p (b.y * azz % p * a.z) s
    if h = 0 then if r = 0 then c.double a else infinity
    else
      let hh := h * h % p
      let hhh := h * hh % p
      let v := u * hh % p
      let x := Modular.sub p (Modular.sub p (r * r) hhh) (2 * v % p)
      let y := Modular.sub p (r * (v + p - x)) (s * hhh % p)
      ⟨x, y, h * a.z % p * b.z % p⟩

/-- `acc + n * a`, by doubling. -/
def mulOnto (c : Curve) (acc a : Point) (n : Nat) : Point :=
  if n = 0 then acc
  else mulOnto c (if n % 2 = 1 then c.add acc a else acc) (c.double a) (n / 2)
termination_by n

def abscissa? (c : Curve) (a : Point) : Option Nat :=
  if a.z = 0 then none
  else
    let zi := Modular.inverse c.prime a.z
    some (a.x * (zi * zi % c.prime) % c.prime)

end Curve

end AttestedKey
