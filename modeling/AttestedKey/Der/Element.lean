import AttestedKey.Ber.Reader

/-! Elements of definite length, as certificates are made of. An element keeps the octets of its
header, so that it can be given back as it was. -/

namespace AttestedKey.Der

open Ber (TagClass)

structure Element where
  tagClass : TagClass
  constructed : Bool
  tag : Nat
  header : Octets
  content : Octets
  deriving DecidableEq, Repr

namespace Element

def raw (e : Element) : Octets := e.header ++ e.content

def read : Reader Element := fun bs => do
  let (h, behind) ← Ber.header bs
  let n ← h.length
  let (content, rest) ← Octets.split? n behind
  pure (⟨h.tagClass, h.constructed, h.tag, bs.take (bs.length - behind.length), content⟩, rest)

/-- One element with the tag number, of any class. -/
def numbered (tag : Nat) : Reader Element := fun bs => do
  let (e, rest) ← read bs
  if e.tag = tag then some (e, rest) else none

def primitive (tag : Nat) : Reader Element := fun bs => do
  let (e, rest) ← numbered tag bs
  if e.constructed then none else some (e, rest)

def all (bs : Octets) : Option (List Element) := Reader.all read bs

def isUniversal (e : Element) (tag : Nat) (constructed : Bool) : Bool :=
  e.tagClass == .universal && e.tag == tag && e.constructed == constructed

def sequence? (e : Element) : Option (List Element) :=
  if e.isUniversal 16 true then all e.content else none

def set? (e : Element) : Option (List Element) :=
  if e.isUniversal 17 true then all e.content else none

def context? (e : Element) (tag : Nat) : Option (List Element) :=
  if e.tagClass == .context && e.tag == tag && e.constructed then all e.content else none

end Element

/-- The content of an integer without redundant sign octets. -/
def isIntegerContent (content : Octets) : Bool :=
  match content with
  | [] => false
  | [_] => true
  | a :: b :: _ => !(a == 0 && b < 0x80) && !(a == 0xFF && 0x80 ≤ b)

end AttestedKey.Der
