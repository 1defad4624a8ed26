import AttestedKey.Signature

/-! What is done with keys: a key info is decoded, a key is encoded again, and signatures are
checked against one. What is said about certificates holds with any library that does so. The one
at hand has RSA, three curves and Ed25519. -/

namespace AttestedKey

class Cryptography where
  Key : Type
  decode? : Octets → Option Key
  encode? : Key → Option Octets
  check : AlgorithmIdentifier → Key → Octets → BitString → SignatureCheck

namespace Cryptography

instance own : Cryptography where
  Key := PublicKey
  decode? := PublicKey.ofKeyInfo?
  encode? key := some key.keyInfo
  check := Signature.check

variable [Cryptography]

/-- The key info of the same key as the library writes it. -/
def reencode? (keyInfo : Octets) : Option Octets := (decode? keyInfo).bind encode?

def IsOwnEncoding (keyInfo : Octets) : Prop := reencode? keyInfo = some keyInfo

end Cryptography

/-- What the library has written is not changed by decoding it and encoding it again. -/
class LawfulCryptography [Cryptography] : Prop where
  isOwnEncoding : ∀ {keyInfo written : Octets}, Cryptography.reencode? keyInfo = some written →
    written.length < 0x10000000000000000 → Cryptography.IsOwnEncoding written

end AttestedKey
