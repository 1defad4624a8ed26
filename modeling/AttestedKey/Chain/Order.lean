import AttestedKey.Chain.Basic

/-! The order of a chain from its root to its leaf. A chain whose names are those of a chain
supplied leaf first is turned round. Another one is sorted by the names if they leave no choice,
else it is turned round as it is. Certificates are told apart by their place in the chain, as one
may be in it twice. -/

namespace AttestedKey.CertificateChain

abbrev Placed := Certificate × Nat

def isLeafFirst : CertificateChain → Bool
  | a :: b :: rest => a.isIssuedBy b && isLeafFirst (b :: rest)
  | _ => true

/-- Self-issued, or issued by no other certificate of the chain. -/
def isRootOf (chain : List Placed) (c : Placed) : Bool :=
  c.1.isSelfIssued || !chain.any fun p => p.2 != c.2 && c.1.isIssuedBy p.1

def without (c : Placed) (chain : List Placed) : List Placed := chain.filter fun p => p.2 != c.2

/-- The certificates below a parent, each the only one left that its predecessor issued. -/
def descend : Nat → Placed → List Placed → Option (List Placed)
  | _, _, [] => some []
  | 0, _, _ :: _ => none
  | n + 1, parent, left =>
    match left.filter fun c => c.1.isIssuedBy parent.1 with
    | [child] => (descend n child (without child left)).map (child :: ·)
    | _ => none

/-- From the only root down, if names leave no choice. -/
def sortedByNames? (chain : CertificateChain) : Option CertificateChain :=
  let placed := chain.zipIdx
  match placed.filter (isRootOf placed) with
  | [root] => (descend placed.length root (without root placed)).map fun below =>
    (root :: below).map (·.1)
  | _ => none

def rootFirst (chain : CertificateChain) : CertificateChain :=
  if isLeafFirst chain then chain.reverse else (sortedByNames? chain).getD chain.reverse

end AttestedKey.CertificateChain
