import AttestedKey.Certificate.Canonical
import AttestedKey.Certificate.Conformance

/-! Signed data that holds certificates and no signatures: an envelope that certificates travel
in. -/

namespace AttestedKey.SignedData

open Der (Element)

def signedDataOid : Octets := [0x2A, 0x86, 0x48, 0x86, 0xF7, 0x0D, 0x01, 0x07, 0x02]

def dataOid : Octets := [0x2A, 0x86, 0x48, 0x86, 0xF7, 0x0D, 0x01, 0x07, 0x01]

def write? (certificates : List Octets) : Option Octets := do
  let members ← Canonical.sorted? certificates
  let signedData := Der.writeSequence [
    Der.writeNatural 1,
    Der.write 0x31 [],
    Der.writeSequence [Der.writeOid dataOid],
    Der.write 0xA0 members.flatten,
    Der.write 0x31 []]
  pure (Der.writeSequence [Der.writeOid signedDataOid, Der.write 0xA0 signedData])

/-- An element of definite or indefinite length; its content is without the end of contents. -/
def readElement : Reader Element := fun bs => do
  let (h, behind) ← Ber.header bs
  let (content, rest) ← Ber.content Ber.maxDepth h behind
  pure (⟨h.tagClass, h.constructed, h.tag, bs.take (bs.length - behind.length), content⟩, rest)

def elements (bs : Octets) : Option (List Element) := Reader.all readElement bs

def isContext (tag : Nat) (e : Element) : Bool :=
  e.tagClass == .context && e.tag == tag && e.constructed

/-- What is inside: the type is an identifier, and content of types that are not looked into is
anything. -/
def isContentInfo (e : Element) : Bool :=
  e.isUniversal 16 true && match elements e.content with
    | some [type] => Conformance.isOid type
    | some [type, content] => Conformance.isOid type && isContext 0 content
    | _ => false

/-- Revocation lists and signers are sequences, and are not looked into. -/
def areSequences (e : Element) : Bool :=
  (elements e.content).any fun es => es.all fun e => e.isUniversal 16 true

def certificates? (content : Octets) : Option (Option (List Octets)) := do
  match ← elements content with
  | version :: digests :: inner :: rest => do
    let (certificates, rest) ← match rest with
      | e :: rest =>
        if isContext 0 e then do
          let parts ← (← Element.all e.content).mapM Conformance.Parts.ofElement?
          pure (some (parts.map Conformance.Parts.encoding), rest)
        else pure (none, e :: rest)
      | [] => pure (none, [])
    let rest := Conformance.dropOptional (fun e => isContext 1 e && areSequences e) rest
    match rest with
    | [signers] =>
      if Conformance.isInteger version && digests.isUniversal 17 true &&
          (elements digests.content).any (·.all Conformance.isAlgorithm) && isContentInfo inner &&
          signers.isUniversal 17 true && areSequences signers then
        pure certificates
      else none
    | _ => none
  | _ => none

/-- The envelope at the front: `none` if it is malformed, no list if it has no place for
certificates. -/
def read? (bs : Octets) : Option (Option (List Octets)) := do
  let (e, _) ← readElement bs
  if !e.isUniversal 16 true then none else
  match ← elements e.content with
  | [type] => if Conformance.isOid type then some none else none
  | [type, content] =>
    if Conformance.isOid type && isContext 0 content then
      match ← elements content.content with
      | [inner] =>
        if type.content = signedDataOid then
          if inner.isUniversal 16 true then certificates? inner.content else none
        else some none
      | _ => none
    else none
  | _ => none

end AttestedKey.SignedData
