import AttestedKey.Chain.Order
import AttestedKey.Evaluation.Certificate

/-! The evaluation of a chain: a walk from its root towards its leaf, and the verdict on the
certificates walked. A failed check does not end the walk; it shows in the verdict. -/

namespace AttestedKey

def CertificateChain.walked : CertificateChain → CertificateChain
  | [] => []
  | c :: rest => if c.endsWalk then [c] else c :: walked rest

structure ChainEvaluation where
  /-- Root first, up to where the walk ended. -/
  certificates : List CertificateFinding
  revocationAvailable : Bool

namespace ChainEvaluation

def occursIn (part : List Char) : List Char → Bool
  | [] => part.isEmpty
  | c :: cs => part.isPrefixOf (c :: cs) || occursIn part cs

/-- The name of Google in the subjects of the certificates that it holds itself. -/
def isGoogleOwn (f : CertificateFinding) : Bool :=
  occursIn "Google LLC".toList f.summary.subject.toList

/-- The first certificate below the root that is not held by Google carries provisioning info. -/
def isRemote (below : List CertificateFinding) : Bool :=
  (below.find? fun f => !isGoogleOwn f).any fun f => f.provisioning.isSome

/-- Whose chain it is: nobody's without certificates, failed if a signature or revocation check
failed, else what the root key tells. Chains of Google may have been provisioned remotely. -/
def issuerOf : List CertificateFinding → Issuer
  | [] => .nobody
  | root :: below =>
    if (root :: below).any fun f => f.status < .expired then .failed
    else
      let issuer := root.anchor.getD .unknown
      if issuer == .google && isRemote below then .googleRemote else issuer

def issuer (e : ChainEvaluation) : Issuer := issuerOf e.certificates

/-- The record found deepest in the chain. -/
def record? (e : ChainEvaluation) : Option Attestation :=
  e.certificates.reverse.findSome? CertificateFinding.record?

def rootOfTrust? (e : ChainEvaluation) : Option RootOfTrust :=
  e.record?.bind Attestation.rootOfTrust

def isSoftwareLevel (e : ChainEvaluation) : Bool :=
  match e.record?.bind Attestation.attestationSecurityLevel with
  | some .trustedEnvironment | some .strongBox => false
  | _ => true

def worstStatus (e : ChainEvaluation) : CertificateStatus :=
  .worst (e.certificates.map CertificateFinding.status)

/-- The record of the last certificate walked, or why there is none. -/
def leafRecord (e : ChainEvaluation) : Decoded Attestation :=
  match e.certificates.getLast? with
  | some last => last.attestation
  | none => .error .noAttestationExtension

end ChainEvaluation

namespace CertificateChain

variable {R : Type} [RevocationLookup R] [Cryptography]

def findings (context : TrustContext R) (time : Instant) :
    Certificate → CertificateChain → List CertificateFinding
  | _, [] => []
  | parent, c :: rest => c.finding parent context time :: findings context time c rest

/-- The evaluation at a time. The root is checked against itself. -/
def evaluate (chain : CertificateChain) (context : TrustContext R) (time : Instant) :
    Except ChainError ChainEvaluation :=
  match chain.rootFirst.walked with
  | [] => .error .emptyChain
  | root :: below => .ok {
      certificates :=
        { root.finding root context time with
            anchor := some (context.anchors.classify root.keyInfo) } ::
          findings context time root below
      revocationAvailable := RevocationLookup.isAvailable context.revocation }

end CertificateChain

end AttestedKey
