import AttestedKey.Certificate.Algorithm
import AttestedKey.Certificate.Name
import AttestedKey.Certificate.Validity
import AttestedKey.Record.Extension

/-! The fields of a certificate, read in order. The reading is a tolerant one: element classes
hardly matter, and what follows the last part of a sequence is passed over. -/

namespace AttestedKey

open Der (Element)

structure CertificateFields where
  serialNumber : Nat
  issuer : Name
  validity : Validity
  subject : Name
  keyInfo : Octets
  extensions : Extensions
  signed : Octets
  /-- The algorithm as the signed part names it, and as the signature does. -/
  signedAlgorithm : AlgorithmIdentifier
  algorithm : AlgorithmIdentifier
  signature : BitString
  deriving DecidableEq

namespace CertificateFields

/-- Contents that are no number of 32 bits in its shortest form are refused. -/
def isVersionNumber (content : Octets) : Bool :=
  match content with
  | [] => false
  | b :: bs =>
    b < 0x80 && !(b == 0 && bs.head?.any (· < 0x80)) && Octets.toNat content < 0x100000000

def skipVersion (bs : Octets) : Option Octets :=
  if bs.isEmpty then some bs else do
    let (h, _) ← Ber.header bs
    if h.tagClass = .context ∧ h.tag = 0 then
      let (e, rest) ← Element.read bs
      let (version, _) ← Element.primitive 2 e.content
      if isVersionNumber version.content then some rest else none
    else some bs

def readSerial : Reader Nat := fun bs => do
  let (h, inner) ← Ber.header bs
  if h.tag ≠ 2 then none else
  let (content, rest) ← Ber.content Ber.maxDepth h inner
  pure (Octets.toNat content, rest)

def readKeyInfo : Reader Octets := fun bs => do
  let (e, rest) ← Element.numbered 16 bs
  let (_, inner) ← AlgorithmIdentifier.read e.content
  let (_, unread) ← BitString.read inner
  pure (e.header ++ e.content.take (e.content.length - unread.length), rest)

def skipUniqueId (tag : Nat) (bs : Octets) : Option Octets :=
  if bs.isEmpty then some bs else do
    let (e, rest) ← Element.read bs
    if e.tagClass = .context ∧ e.tag = tag then
      if e.constructed then none else do
        let _ ← BitString.ofContent? e.content
        pure rest
    else some bs

/-- The mark is false unless a BOOLEAN says otherwise. -/
def readCritical (bs : Octets) : Bool × Octets :=
  match Element.numbered 1 bs with
  | some (⟨_, _, _, _, [b]⟩, rest) => (b != 0, rest)
  | _ => (false, bs)

def readExtension : Reader Extension := fun bs => do
  let (e, rest) ← Element.numbered 16 bs
  let (oid, inner) ← Element.primitive 6 e.content
  let (critical, inner) := readCritical inner
  let (value, _) ← Element.primitive 4 inner
  pure (⟨Oid.text oid.content, critical, value.content⟩, rest)

/-- What is left of the signed part: nothing, or a wrapper with the number 3 and exactly one
sequence of extensions behind its header. -/
def readExtensions (bs : Octets) : Option Extensions :=
  if bs.isEmpty then some [] else do
    let (h, inner) ← Ber.header bs
    if h.tag ≠ 3 ∨ h.length.isNone then none else
    let (e, rest) ← Element.numbered 16 inner
    if rest.isEmpty then Reader.all readExtension e.content else none

def ofContent? (content : Octets) : Option CertificateFields := do
  let (tbs, behind) ← Element.numbered 16 content
  let bs ← skipVersion tbs.content
  let (serialNumber, bs) ← readSerial bs
  let (signedAlgorithm, bs) ← AlgorithmIdentifier.read bs
  let (issuer, bs) ← Name.read bs
  let (validity, bs) ← Validity.read bs
  let (subject, bs) ← Name.read bs
  let (keyInfo, bs) ← readKeyInfo bs
  let bs ← skipUniqueId 1 bs
  let bs ← skipUniqueId 2 bs
  let extensions ← readExtensions bs
  let (algorithm, behind) ← AlgorithmIdentifier.read behind
  let (signature, _) ← BitString.read behind
  pure ⟨serialNumber, issuer, validity, subject, keyInfo, extensions, tbs.raw, signedAlgorithm,
    algorithm, signature⟩

def read (bs : Octets) : Option (CertificateFields × Octets × Octets) := do
  let (e, rest) ← Element.numbered 16 bs
  pure (← ofContent? e.content, e.raw, rest)

end CertificateFields

end AttestedKey
