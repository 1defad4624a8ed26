import AttestedKey.Digest
import AttestedKey.PublicKey.Basic
import AttestedKey.PublicKey.Edwards

/-! Checking signatures: ECDSA, RSA with the padding of PKCS #1 version 1.5, and Ed25519. A
signature that cannot be looked at is told from one that is looked at and is wrong. -/

namespace AttestedKey

inductive SignatureCheck
  | valid
  | wrong
  /-- The key does not fit the algorithm, the algorithm is unknown, or the signature is not in its
  form. -/
  | unusable
  deriving DecidableEq, Repr

inductive SignatureAlgorithm where
  | ecdsa (digest : Digest)
  | rsa (digest : Digest)
  | ed25519
  deriving DecidableEq, Repr

namespace SignatureAlgorithm

def ofOid? (oid : Octets) : Option SignatureAlgorithm :=
  [("1.2.840.10045.4.1", ecdsa .sha1),
   ("1.2.840.10045.4.3.1", ecdsa .sha224),
   ("1.2.840.10045.4.3.2", ecdsa .sha256),
   ("1.2.840.10045.4.3.3", ecdsa .sha384),
   ("1.2.840.10045.4.3.4", ecdsa .sha512),
   ("1.2.840.113549.1.1.5", rsa .sha1),
   ("1.3.14.3.2.29", rsa .sha1),
   ("1.2.840.113549.1.1.14", rsa .sha224),
   ("1.2.840.113549.1.1.11", rsa .sha256),
   ("1.2.840.113549.1.1.12", rsa .sha384),
   ("1.2.840.113549.1.1.13", rsa .sha512),
   ("1.3.101.112", ed25519)].lookup (Oid.text oid)

end SignatureAlgorithm

namespace Signature

def ofBool (ok : Bool) : SignatureCheck := if ok then .valid else .wrong

def natural? (e : Der.Element) : Option Nat :=
  let n := Octets.toNat e.content
  if e.raw = Der.writeNatural n then some n else none

/-- The two numbers of an ECDSA signature, which has one encoding only. -/
def pair? (signature : Octets) : Option (Nat × Nat) := do
  let (e, _) ← Der.Element.read signature
  match ← e.sequence? with
  | [r, s] =>
    let r ← natural? r
    let s ← natural? s
    if signature = Der.writeSequence [Der.writeNatural r, Der.writeNatural s] then some (r, s)
    else none
  | _ => none

/-- As many leading bits of the digest as the order has. -/
def leadingBits (bits : Nat) (digest : Octets) : Nat :=
  Octets.toNat digest >>> (8 * digest.length - bits)

def checkEcdsa (c : Curve) (x y : Nat) (digest signature : Octets) : SignatureCheck :=
  match pair? signature with
  | none => .unusable
  | some (r, s) =>
    let n := c.order
    if r = 0 ∨ s = 0 ∨ n ≤ r ∨ n ≤ s then .wrong
    else
      let w := Modular.inverse n s
      let u := leadingBits c.orderBits digest * w % n
      let v := r * w % n
      let g : Curve.Point := ⟨c.generator.1, c.generator.2, 1⟩
      match c.abscissa? (c.mulOnto (c.mulOnto Curve.infinity g u) ⟨x, y, 1⟩ v) with
      | none => .unusable
      | some x => ofBool (x % n == r)

def digestOid : Digest → Octets
  | .sha1 => [0x2B, 0x0E, 0x03, 0x02, 0x1A]
  | .sha224 => [0x60, 0x86, 0x48, 0x01, 0x65, 0x03, 0x04, 0x02, 0x04]
  | .sha256 => [0x60, 0x86, 0x48, 0x01, 0x65, 0x03, 0x04, 0x02, 0x01]
  | .sha384 => [0x60, 0x86, 0x48, 0x01, 0x65, 0x03, 0x04, 0x02, 0x02]
  | .sha512 => [0x60, 0x86, 0x48, 0x01, 0x65, 0x03, 0x04, 0x02, 0x03]

/-- The digest in `size` octets: `00 01 FF … FF 00`, then its identifier and value. -/
def padded (size : Nat) (d : Digest) (digest : Octets) : Option Octets :=
  let info := Der.writeSequence [
    Der.writeSequence [Der.writeOid (digestOid d), Der.null], Der.write 0x04 digest]
  if size < info.length + 11 then none
  else some (0 :: 1 :: (List.replicate (size - info.length - 3) 0xFF ++ 0 :: info))

/-- Exponents are bounded for large moduli, and even moduli are of no use. -/
def isUsable (n e : Nat) : Bool :=
  n % 2 == 1 && e < n && Nat.log2 n < 16384 && (Nat.log2 n < 3072 || Nat.log2 e < 64)

def checkRsa (n e : Nat) (d : Digest) (digest signature : Octets) : SignatureCheck :=
  let size := Octets.width n
  let s := Octets.toNat signature
  ofBool (signature.length == size && isUsable n e && s < n &&
    padded size d digest == some (Octets.ofNat size (Modular.pow n s e)))

def checkEd25519 (key message signature : Octets) : SignatureCheck :=
  let r := signature.take 32
  let s := Edwards.number (signature.drop 32)
  if signature.length ≠ 64 ∨ Edwards.order ≤ s then .wrong
  else match Edwards.decode? key with
    | none => .wrong
    | some a =>
      let h := Edwards.number (Digest.sha512.hash (r ++ key ++ message)) % Edwards.order
      let sum := Edwards.mulOnto (Edwards.mulOnto Edwards.neutral Edwards.base s) (Edwards.neg a) h
      ofBool (Edwards.encode sum == r)

/-- Signatures are whole octets. -/
def check (algorithm : AlgorithmIdentifier) (key : PublicKey) (message : Octets)
    (signature : BitString) : SignatureCheck :=
  if signature.unused ≠ 0 then .unusable
  else match SignatureAlgorithm.ofOid? algorithm.oid, key with
    | some (.ecdsa d), .ec c _ x y => checkEcdsa c x y (d.hash message) signature.octets
    | some (.rsa d), .rsa n e => checkRsa n e d (d.hash message) signature.octets
    | some .ed25519, .ed25519 point => checkEd25519 point message signature.octets
    | _, _ => .unusable

end Signature

end AttestedKey
