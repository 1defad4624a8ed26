import AttestedKey.Ber.CharacterSet
import AttestedKey.Certificate.Algorithm
import AttestedKey.Der.Writer

/-! The stricter rules for a certificate: every element is of its type and class, fills its place
exactly, and holds a value that is well-formed for the type. -/

namespace AttestedKey.Conformance

open Der (Element)

def isBitsContent (content : Octets) : Bool := content.head?.any (· < 8)

def isInteger (e : Element) : Bool := e.isUniversal 2 false && Der.isIntegerContent e.content

def isBits (e : Element) : Bool := e.isUniversal 3 false && isBitsContent e.content

def isOid (e : Element) : Bool := e.isUniversal 6 false && Oid.isWellFormed e.content

def isBoolean (e : Element) : Bool := e.isUniversal 1 false && e.content.length == 1

def codePoints? : Octets → Option (List Nat)
  | [] => some []
  | a :: b :: c :: d :: rest => (codePoints? rest).map (Octets.toNat [a, b, c, d] :: ·)
  | _ => none

def isCharacter (n : Nat) : Bool := n < 0x110000 && !(isSurrogate n)
where isSurrogate (n : Nat) : Bool := 0xD800 ≤ n && n < 0xE000

/-- The content that a string in pieces, possibly nested, has in all. -/
def gathered? : Nat → Octets → Option Octets
  | 0, _ => none
  | depth + 1, bs => do
    let parts ← (← Element.all bs).mapM fun e =>
      if e.tagClass ≠ .universal then none
      else if e.constructed then gathered? depth e.content
      else some e.content
    pure parts.flatten

def stringContent? (e : Element) : Option Octets :=
  if e.constructed then gathered? 5 e.content else some e.content

/-- Whether content fits its universal string type: whole characters, and, where the type takes
part in comparing names, real ones. -/
def isStringContent (tag : Nat) (content : Octets) : Bool :=
  match tag with
  | 3 => isBitsContent content
  | 12 => (Utf8.decode? content).isSome
  | 28 => (codePoints? content).any fun us => us.all isCharacter
  | 30 => (Ber.units16? content).any fun us => us.all isCharacter
  | _ => true

/-- The types that a value in a name may have: text, bits, sequences, and types without a
meaning. -/
def isNameValueTag (tag : Nat) : Bool :=
  [3, 7, 8, 9, 11, 12, 13, 14, 15, 16, 18, 19, 20, 22, 28, 29, 30].contains tag

def isNameValue (e : Element) : Bool :=
  e.tagClass == .universal && isNameValueTag e.tag &&
    if e.tag = 16 then e.constructed else (stringContent? e).any (isStringContent e.tag)

def isAttribute (e : Element) : Bool :=
  match e.sequence? with
  | some [type, value] => isOid type && isNameValue value
  | _ => false

/-- The parts of a list of some type, which need not be marked as constructed. -/
def listed? (tag : Nat) (e : Element) : Option (List Element) :=
  if e.isUniversal tag e.constructed then Element.all e.content else none

def isName (e : Element) : Bool :=
  (listed? 16 e).any fun sets => sets.all fun s => (listed? 17 s).any fun attributes =>
    attributes.all isAttribute

/-- A value of any type; only the types that have rules of their own are looked into. -/
def isAnyValue (e : Element) : Bool :=
  if e.tagClass ≠ .universal then true
  else match e.tag with
    | 0 => e.raw != [0, 0] && (stringContent? e).isSome
    | 1 => isBoolean e
    | 2 | 10 => !e.constructed && Der.isIntegerContent e.content
    | 5 => !e.constructed && e.content.isEmpty
    | 6 => isOid e
    | 16 | 17 => e.constructed
    | 28 => (stringContent? e).any fun content => content.length % 4 == 0
    | 30 => (stringContent? e).any fun content => content.length % 2 == 0
    | 3 => (stringContent? e).any isBitsContent
    | _ => (stringContent? e).isSome

def isAlgorithm (e : Element) : Bool :=
  match e.sequence? with
  | some [oid] => isOid oid
  | some [oid, parameters] => isOid oid && isAnyValue parameters
  | _ => false

def isTime (e : Element) : Bool :=
  e.tagClass == .universal && (e.tag == 23 || e.tag == 24) && !e.constructed

def isValidity (e : Element) : Bool :=
  match e.sequence? with
  | some [notBefore, notAfter] => isTime notBefore && isTime notAfter
  | _ => false

def isKeyInfo (e : Element) : Bool :=
  match e.sequence? with
  | some [algorithm, key] => isAlgorithm algorithm && isBits key
  | _ => false

def isExtension (e : Element) : Bool :=
  match e.sequence? with
  | some [oid, value] => isOid oid && value.isUniversal 4 false
  | some [oid, critical, value] => isOid oid && isBoolean critical && value.isUniversal 4 false
  | _ => false

def isExtensions (e : Element) : Bool :=
  match e.context? 3 with
  | some [list] => (listed? 16 list).any fun extensions => extensions.all isExtension
  | _ => false

def isVersion (e : Element) : Bool :=
  match e.context? 0 with
  | some [number] => isInteger number
  | _ => false

def isUniqueId (tag : Nat) (e : Element) : Bool :=
  e.tagClass == .context && e.tag == tag && !e.constructed && isBitsContent e.content

def dropOptional (is : Element → Bool) : List Element → List Element
  | [] => []
  | e :: rest => if is e then rest else e :: rest

def keyInfo? (e : Element) : Option Element :=
  match e.sequence?.map (dropOptional isVersion) with
  | some (serial :: algorithm :: issuer :: validity :: subject :: keyInfo :: rest) =>
    if isInteger serial && isAlgorithm algorithm && isName issuer && isValidity validity &&
        isName subject && isKeyInfo keyInfo &&
        (dropOptional isExtensions
          (dropOptional (isUniqueId 2) (dropOptional (isUniqueId 1) rest))).isEmpty then
      some keyInfo
    else none
  | _ => none

/-- A certificate that conforms: its three parts and the public key inside the first. -/
structure Parts where
  signed : Element
  algorithm : Element
  signature : Element
  keyInfo : Element

namespace Parts

def ofElement? (e : Element) : Option Parts := do
  match ← e.sequence? with
  | [signed, algorithm, signature] =>
    let keyInfo ← keyInfo? signed
    if isAlgorithm algorithm && isBits signature then some ⟨signed, algorithm, signature, keyInfo⟩
    else none
  | _ => none

def ofFront? (bs : Octets) : Option Parts := do ofElement? (← Element.read bs).1

/-- The octets that a universal type begins with when its content is in one piece. -/
def identifier (tag : Nat) : Octets :=
  if tag < 31 then [UInt8.ofNat tag]
  else 0x1F :: (List.range 5).reverse.filterMap fun place =>
    let digits := tag >>> (7 * place)
    if digits = 0 then none else some (UInt8.ofNat (digits % 128 + if place = 0 then 0 else 128))

def clearedLast (unused : UInt8) : Octets → Octets
  | [] => []
  | [b] => [b &&& (0xFF <<< unused)]
  | b :: bs => b :: clearedLast unused bs

/-- Content of bits, the unused of them zero. An empty one has none that are unused. -/
def clearedBits : Octets → Octets
  | [] => []
  | [_] => [0]
  | unused :: bits => unused :: clearedLast unused bits

/-- A value of any type as it is written again. Sequences, sets and what is not universal stay as
they are; of others nothing is kept but their type and content. -/
def shortened (e : Element) : Octets :=
  if e.tagClass ≠ .universal || e.tag == 16 || e.tag == 17 then e.raw
  else
    let whole := (stringContent? e).getD e.content
    let content := if e.tag = 3 then clearedBits whole else whole
    identifier e.tag ++ (Der.writeLength content.length ++ content)

/-- The certificate with the shortest lengths, and unused bits that are zero, everywhere but inside
the signed part. -/
def encoding (p : Parts) : Octets :=
  let algorithm := (p.algorithm.sequence?.getD []).map shortened
  Der.writeSequence [p.signed.raw, Der.writeSequence algorithm,
    Der.write 0x03 (clearedBits p.signature.content)]

end Parts

def isCertificate (der : Octets) : Bool :=
  match Element.read der with
  | some (e, []) => (Parts.ofElement? e).isSome
  | _ => false

end AttestedKey.Conformance
