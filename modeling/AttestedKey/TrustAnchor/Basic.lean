import AttestedKey.Chain.Basic
import AttestedKey.Cryptography
import AttestedKey.Revocation.Store
import AttestedKey.TrustAnchor.KnownKey

/-! The root keys that tell who issued a chain: those known from the start, and keys of
manufacturers that were added. Keys are told apart by the octets of their key info. -/

namespace AttestedKey

/-- Who issued a chain, as far as the root key tells; `nobody`, `failed` and `googleRemote` are
only said of whole chains. -/
inductive Issuer
  | nobody
  | failed
  | unknown
  | aosp
  | google
  | googleRemote
  | knox
  | manufacturer
  deriving DecidableEq, Repr

def Issuer.name : Issuer → String
  | nobody => "Null"
  | failed => "Failed"
  | unknown => "Unknown"
  | aosp => "Aosp"
  | google => "Google"
  | googleRemote => "GoogleRkp"
  | knox => "Knox"
  | manufacturer => "Oem"

def Issuer.ofName? (s : String) : Option Issuer :=
  [nobody, failed, unknown, aosp, google, googleRemote, knox, manufacturer].find? fun x =>
    x.name == s

structure TrustAnchors where
  known : List (Issuer × Octets)
  added : List Octets := []
  deriving DecidableEq, Repr

namespace TrustAnchors

def knownKeys : List (Issuer × Octets) :=
  [(Issuer.google, googleKey), (.aosp, aospEcKey), (.aosp, aospRsaKey), (.knox, knoxSakV2Key),
    (.knox, knoxSakV1Key), (.knox, knoxSakmV1Key)].filterMap fun (issuer, text) =>
      (Base64.decode? .standard text).map fun key => (issuer, key)

def empty : TrustAnchors := { known := knownKeys }

def known? (a : TrustAnchors) (key : Octets) : Option Issuer :=
  (a.known.find? fun k => k.2 == key).map (·.1)

/-- A known key keeps its issuer, also if it was added. -/
def classify (a : TrustAnchors) (key : Octets) : Issuer :=
  match a.known? key with
  | some issuer => issuer
  | none => if a.added.contains key then .manufacturer else .unknown

/-- Whether the key is new and was added; the Google key is not. -/
def add (a : TrustAnchors) (key : Octets) : Bool × TrustAnchors :=
  if (a.known.any fun k => k.1 == .google && k.2 == key) || a.added.contains key then (false, a)
  else (true, { a with added := a.added ++ [key] })

/-- The key of a certificate as the library writes it, if it can be read. -/
def keyOf? [Cryptography] (c : Conformance.Parts) : Option Octets :=
  Cryptography.reencode? c.keyInfo.raw

/-- Adds keys and counts the new ones. One that cannot be read is an error, which leaves those
before it added. -/
def addKeys (a : TrustAnchors) (count : Nat) :
    List (Option Octets) → Except StoreError Nat × TrustAnchors
  | [] => (.ok count, a)
  | none :: _ => (.error (.crypto "unreadable public key"), a)
  | some key :: rest =>
    let added := a.add key
    added.2.addKeys (if added.1 then count + 1 else count) rest

def addPem [Cryptography] (a : TrustAnchors) (bs : Octets) : Except StoreError Nat × TrustAnchors :=
  match CertificateChain.pemParts? bs with
  | none => (.error (.crypto "unreadable PEM block"), a)
  | some [] => (.error (.syntaxError CertificateChain.noneInPem), a)
  | some certificates => a.addKeys 0 (certificates.map keyOf?)

end TrustAnchors

end AttestedKey
