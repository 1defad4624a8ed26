import AttestedKey.Der.Element
import AttestedKey.Oid

/-! Algorithm identifiers and bit strings. -/

namespace AttestedKey

open Der (Element)

structure AlgorithmIdentifier where
  oid : Octets
  parameters : Option Element
  deriving DecidableEq, Repr

namespace AlgorithmIdentifier

def read : Reader AlgorithmIdentifier := fun bs => do
  let (e, rest) ← Element.numbered 16 bs
  let (oid, inner) ← Element.primitive 6 e.content
  pure (⟨oid.content, (Element.read inner).map (·.1)⟩, rest)

end AlgorithmIdentifier

structure BitString where
  unused : Nat
  octets : Octets
  deriving DecidableEq, Repr

namespace BitString

/-- The unused bits have to be zero. -/
def ofContent? : Octets → Option BitString
  | [] => none
  | [b] => if b = 0 then some ⟨0, []⟩ else none
  | b :: bs =>
    if b ≤ 8 ∧ (bs.getLastD 0).toNat % (1 <<< b.toNat) = 0 then some ⟨b.toNat, bs⟩ else none

def read : Reader BitString := fun bs => do
  let (e, rest) ← Element.primitive 3 bs
  pure (← ofContent? e.content, rest)

end BitString

end AttestedKey
