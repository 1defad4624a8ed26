import AttestedKey.Ber.CharacterSet
import AttestedKey.Der.Element
import AttestedKey.Oid

/-! Names of subjects and issuers: a sequence of sets of attributes. Two names are the same when
their encodings are. Reading a name goes as far as it is understood. -/

namespace AttestedKey

open Der (Element)

structure NameAttribute where
  type : String
  tag : Nat
  content : Octets
  deriving DecidableEq, Repr

namespace NameAttribute

def read : Reader NameAttribute := fun bs => do
  let (e, rest) ← Element.numbered 16 bs
  let (type, inner) ← Element.primitive 6 e.content
  let (value, _) ← Element.read inner
  pure (⟨Oid.text type.content, value.tag, value.content⟩, rest)

def shortNames : List (String × String) := [
  ("2.5.4.3", "CN"),
  ("2.5.4.6", "C"),
  ("2.5.4.7", "L"),
  ("2.5.4.8", "ST"),
  ("2.5.4.10", "O"),
  ("2.5.4.11", "OU"),
  ("0.9.2342.19200300.100.1.25", "DC"),
  ("1.2.840.113549.1.9.1", "Email"),
  ("0.9.2342.19200300.100.1.1", "uid"),
  ("1.2.840.113549.1.9.2", "unstructuredName"),
  ("1.2.840.113549.1.9.3", "contentType"),
  ("1.2.840.113549.1.9.4", "id-messageDigest"),
  ("1.2.840.113549.1.9.5", "signing-time"),
  ("1.2.840.113549.1.9.7", "challengePassword"),
  ("1.2.840.113549.1.9.14", "extensionRequest"),
  ("1.2.840.113549.1.9.15", "smimeCapabilities"),
  ("1.2.840.113549.1.9.20", "friendlyName"),
  ("1.3.6.1.4.1.311.60.2.1.1", "msJurisdictionLocality"),
  ("1.3.6.1.4.1.311.60.2.1.2", "msJurisdictionStateOrProvince"),
  ("1.3.6.1.4.1.311.60.2.1.3", "msJurisdictionCountry"),
  ("2.5.4.0", "objectClass"),
  ("2.5.4.1", "aliasedEntryName"),
  ("2.5.4.2", "knowledgeInformation"),
  ("2.5.4.4", "surname"),
  ("2.5.4.5", "serialNumber"),
  ("2.5.4.9", "streetAddress"),
  ("2.5.4.12", "title"),
  ("2.5.4.13", "description"),
  ("2.5.4.14", "searchGuide"),
  ("2.5.4.15", "businessCategory"),
  ("2.5.4.16", "postalAddress"),
  ("2.5.4.17", "postalCode"),
  ("2.5.4.41", "name"),
  ("2.5.4.42", "givenName"),
  ("2.5.4.43", "initials"),
  ("2.5.4.44", "generationQualifier"),
  ("2.5.4.45", "uniqueIdentifier"),
  ("2.5.4.46", "dnQualifier")]

def typeText (a : NameAttribute) : String :=
  (shortNames.lookup a.type).getD ("OID(" ++ a.type ++ ")")

/-- Character strings as their text, UTF-16 for a BMPString and else UTF-8, other values as upper
case hexadecimal. -/
def valueText? (a : NameAttribute) : Option String :=
  match Ber.StringType.ofTag? a.tag with
  | some .bmp => Ber.decodeUtf16? a.content
  | some _ => Utf8.decode? a.content
  | none => some a.content.toHex.toUpper

def text? (a : NameAttribute) : Option String := a.valueText?.map fun v => a.typeText ++ "=" ++ v

end NameAttribute

structure Name where
  /-- The encoding, as far as it was read. -/
  raw : Octets
  sets : List (List NameAttribute)
  deriving DecidableEq, Repr

namespace Name

def readMany {α : Type} (item : Reader α) : Nat → List α → Octets → List α × Octets
  | 0, xs, bs => (xs.reverse, bs)
  | n + 1, xs, bs =>
    match item bs with
    | none => (xs.reverse, bs)
    | some (x, rest) => readMany item n (x :: xs) rest

def readSet : Reader (List NameAttribute) := fun bs => do
  let (e, rest) ← Element.numbered 17 bs
  let (attributes, _) := readMany NameAttribute.read e.content.length [] e.content
  if attributes.isEmpty then none else some (attributes, rest)

/-- Reading stops before the first set that is empty or starts with no attribute; what follows it
inside the name is passed over. -/
def read : Reader Name := fun bs => do
  let (e, rest) ← Element.numbered 16 bs
  let (sets, unread) := readMany readSet e.content.length [] e.content
  pure (⟨e.header ++ e.content.take (e.content.length - unread.length), sets⟩, rest)

def unreadable : String := "<X509Error: Invalid X.509 name>"

def text (n : Name) : String :=
  match n.sets.mapM fun attributes => attributes.mapM NameAttribute.text? with
  | some sets => ", ".intercalate (sets.map fun parts => " + ".intercalate parts)
  | none => unreadable

end Name

end AttestedKey
