import AttestedKey.PublicKey.Modular
import AttestedKey.Octets

/-! The twisted Edwards curve `-x² + y² = 1 + d x² y²` over the field of `2 ^ 255 - 19` elements.
Points are computed with in the coordinates `(x / z, y / z)` with `t = x y / z`, where one formula
adds all points. -/

namespace AttestedKey.Edwards

def prime : Nat := (1 <<< 255) - 19

def order : Nat := (1 <<< 252) + 27742317777372353535851937790883648493

def d : Nat := 0x52036cee2b6ffe738cc740797779e89800700a4d4141d8ab75eb4dca135978a3

structure Point where
  x : Nat
  y : Nat
  z : Nat
  t : Nat

def ofAffine (x y : Nat) : Point := ⟨x, y, 1, x * y % prime⟩

def neutral : Point := ofAffine 0 1

def base : Point :=
  ofAffine 0x216936d3cd6e53fec0a4e231fdd6dc5c692cc7609525a7b2c9562d608f25d51a
    0x6666666666666666666666666666666666666666666666666666666666666658

def neg (a : Point) : Point := { a with x := Modular.sub prime 0 a.x, t := Modular.sub prime 0 a.t }

def add (a b : Point) : Point :=
  let p := prime
  let s := Modular.sub p a.y a.x * Modular.sub p b.y b.x % p
  let u := (a.y + a.x) * (b.y + b.x) % p
  let c := a.t * (2 * d) % p * b.t % p
  let z := 2 * a.z * b.z % p
  let e := Modular.sub p u s
  let f := Modular.sub p z c
  let g := (z + c) % p
  let h := (u + s) % p
  ⟨e * f % p, g * h % p, f * g % p, e * h % p⟩

def mulOnto (acc a : Point) (n : Nat) : Point :=
  if n = 0 then acc
  else mulOnto (if n % 2 = 1 then add acc a else acc) (add a a) (n / 2)
termination_by n

def number (bs : Octets) : Nat := Octets.toNat bs.reverse

/-- The point with the encoded `y`, modulo the prime, and the sign of `x` in the highest bit. -/
def decode? (bs : Octets) : Option Point :=
  let n := number bs
  let y := n % (1 <<< 255) % prime
  let yy := y * y % prime
  let u := Modular.sub prime yy 1
  let v := (d * yy + 1) % prime
  let power := Modular.pow prime (u * Modular.pow prime v 7) ((prime - 5) / 8)
  let root := u * Modular.pow prime v 3 * power % prime
  let square := v * root % prime * root % prime
  let x? :=
    if square = u then some root
    else if square = Modular.sub prime 0 u then
      some (root * Modular.pow prime 2 ((prime - 1) / 4) % prime)
    else none
  x?.map fun x => ofAffine (if x % 2 = (n >>> 255) % 2 then x else Modular.sub prime 0 x) y

def encode (a : Point) : Octets :=
  let zi := Modular.inverse prime a.z
  let x := a.x * zi % prime
  let y := a.y * zi % prime
  (Octets.ofNat 32 (y + ((x % 2) <<< 255))).reverse

end AttestedKey.Edwards
