import AttestedKey.NumberSet

/-! Display names of the numbers found in records. -/

namespace AttestedKey.Label

/-- The name in a table, or the number itself. -/
def lookup (table : List (Int64 × String)) (n : Int64) : String :=
  (table.lookup n).getD s!"Unknown ({n.toInt})"

def attestationVersion : Int64 → String := lookup
  [(1, "Keymaster 2.0"), (2, "Keymaster 3.0"), (3, "Keymaster 4.0"), (4, "Keymaster 4.1"),
    (100, "KeyMint 1.0"), (200, "KeyMint 2.0"), (300, "KeyMint 3.0"), (400, "KeyMint 4.0")]

def keyMintVersion : Int64 → String := lookup
  [(0, "Keymaster 0.2 or 0.3"), (1, "Keymaster 1.0"), (2, "Keymaster 2.0"), (3, "Keymaster 3.0"),
    (4, "Keymaster 4.0"), (41, "Keymaster 4.1"), (100, "KeyMint 1.0"), (200, "KeyMint 2.0"),
    (300, "KeyMint 3.0"), (400, "KeyMint 4.0")]

def algorithm : Int64 → String := lookup
  [(1, "RSA"), (3, "ECDSA"), (32, "AES"), (33, "3DES"), (128, "HMAC")]

def ecCurve : Int64 → String := lookup
  [(0, "secp224r1"), (1, "secp256r1"), (2, "secp384r1"), (3, "secp521r1"), (4, "Curve25519")]

def purpose : Int64 → String := lookup
  [(0, "ENCRYPT"), (1, "DECRYPT"), (2, "SIGN"), (3, "VERIFY"), (5, "WRAP"), (6, "AGREE_KEY"),
    (7, "ATTEST_KEY")]

def digest : Int64 → String := lookup
  [(0, "NONE"), (1, "MD5"), (2, "SHA1"), (3, "SHA224"), (4, "SHA256"), (5, "SHA384"), (6, "SHA512")]

def padding : Int64 → String := lookup
  [(1, "NONE"), (2, "OAEP"), (3, "PSS"), (4, "PKCS1 ENCRYPT"), (5, "PKCS1 SIGN"), (64, "PKCS7")]

def origin : Int64 → String := lookup
  [(0, "Generated"), (1, "Derived"), (2, "Imported"), (3, "Unknown (KM0)"),
    (4, "Securely Imported")]

def bracketed (names : List String) : String := "[" ++ ", ".intercalate names ++ "]"

/-- Authentication types are the two lowest bits of a mask. -/
def userAuthType (n : Int64) : String :=
  bracketed ((if n.toInt / 2 % 2 = 1 then ["Biometric"] else []) ++
    (if n.toInt % 2 = 1 then ["Password"] else []))

def set (s : NumberSet) (name : Int64 → String) : String := bracketed (s.toList.map name)

end AttestedKey.Label
