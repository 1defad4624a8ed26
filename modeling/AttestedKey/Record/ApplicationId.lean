import AttestedKey.Record.Element
import AttestedKey.Utf8

/-! The application a key belongs to: the packages that share its user id, and the digests of their
signing certificates. `ApplicationId.compare` orders by package count, packages, digest count,
digests. -/

namespace AttestedKey

structure Package where
  name : String
  version : Int64
  deriving DecidableEq, Repr

structure ApplicationId where
  packages : List Package
  digests : List Octets
  deriving DecidableEq, Repr

namespace Package

def ofObject (x : Ber.Object) : Decoded Package := do
  let seq ← x.asSequence "package-info"
  match seq with
  | [name, version] =>
    let name ← name.asOctets "package-name"
    pure ⟨Utf8.decodeLossy name, ← version.asInt "version"⟩
  | _ => .error (.malformed s!"package-info: expecting 2 elements, got {seq.length}")

def compare (a b : Package) : Ordering :=
  (Ord.compare a.name b.name).then (Ord.compare a.version b.version)

end Package

/-- The first element that differs decides; a proper beginning comes first. -/
def lexicographic {α : Type} (cmp : α → α → Ordering) : List α → List α → Ordering
  | [], [] => .eq
  | [], _ :: _ => .lt
  | _ :: _, [] => .gt
  | a :: as, b :: bs => (cmp a b).then (lexicographic cmp as bs)

/-- Shorter first; equal lengths by their octets as signed numbers. -/
def compareDigest (a b : Octets) : Ordering :=
  (Ord.compare a.length b.length).then
    (lexicographic (fun x y => Ord.compare x.toInt8 y.toInt8) a b)

namespace ApplicationId

def decode (bs : Octets) : Decoded ApplicationId := do
  let x ← Ber.Object.ofOctets "attestation-application-id" bs
  let seq ← x.asSequence "attestation-application-id"
  match seq with
  | [packages, digests] =>
    let packages ← (← packages.asSet "package-infos").mapM Package.ofObject
    let digests ← (← digests.asSet "signature-digests").mapM (·.asOctets "signature-digest")
    pure ⟨packages, digests⟩
  | _ => .error (.malformed s!"attestation-application-id: expecting 2 elements, got {seq.length}")

def compare (a b : ApplicationId) : Ordering :=
  (Ord.compare a.packages.length b.packages.length).then <|
  (lexicographic Package.compare a.packages b.packages).then <|
  (Ord.compare a.digests.length b.digests.length).then <|
    lexicographic compareDigest a.digests b.digests

end ApplicationId

end AttestedKey
