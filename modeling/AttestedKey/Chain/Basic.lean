import AttestedKey.Certificate.Trust
import AttestedKey.Chain.SignedData
import AttestedKey.Pem

/-! Chains of certificates in the order they were supplied in, normally leaf first, and the forms
they are supplied in. -/

namespace AttestedKey

abbrev CertificateChain := List Certificate

namespace CertificateChain

def leaf? (chain : CertificateChain) : Option Certificate := chain.head?

def ofDerFrom : Nat → Nat → Octets → Except ChainError CertificateChain
  | _, _, [] => .ok []
  | 0, count, _ :: _ => .error (.syntaxError s!"certificate {count}")
  | fuel + 1, count, bs =>
    match CertificateFields.read bs with
    | none => .error (.syntaxError s!"certificate {count}")
    | some (_, der, rest) => do
      let c ← Certificate.ofDer der
      pure (c :: (← ofDerFrom fuel (count + 1) rest))

/-- Certificates split by their own lengths, at least one. -/
def ofDer (bs : Octets) : Except ChainError CertificateChain := do
  let chain ← ofDerFrom bs.length 0 bs
  if chain.isEmpty then .error (.syntaxError "no certificate found") else pure chain

def isCertificateLabel (label : Octets) : Bool :=
  label == Octets.ofAscii "CERTIFICATE" || label == Octets.ofAscii "X509 CERTIFICATE" ||
    label == Octets.ofAscii "TRUSTED CERTIFICATE"

/-- The certificates of a bundle, each conforming, in their shortest encoding; `none` if some block
cannot be read. -/
def pemParts? (bs : Octets) : Option (List Conformance.Parts) := do
  (← Pem.all isCertificateLabel bs).mapM Conformance.Parts.ofFront?

def noneInPem : String := "no certificate found in PEM"

def ofPem (bs : Octets) : Except ChainError CertificateChain :=
  match pemParts? bs with
  | none => .error (.syntaxError "unreadable PEM block")
  | some [] => .error (.syntaxError noneInPem)
  | some parts => parts.mapM fun p => Certificate.ofDer p.encoding

def isSignedDataLabel (label : Octets) : Bool :=
  label == Octets.ofAscii "PKCS7" || label == Octets.ofAscii "PKCS #7 SIGNED DATA" ||
    label == Octets.ofAscii "CERTIFICATE"

def readEnvelope? (bs : Octets) : Option (Option (List Octets)) :=
  match SignedData.read? bs with
  | some x => some x
  | none => (Pem.first? isSignedDataLabel bs).bind SignedData.read?

def ofPkcs7 (bs : Octets) : Except ChainError CertificateChain :=
  match readEnvelope? bs with
  | none => .error (.syntaxError "PKCS#7")
  | some none | some (some []) => .error (.syntaxError "PKCS#7 without certificates")
  | some (some encodings) => encodings.mapM Certificate.ofDer

/-- Whatever form the octets are in; if they are in none, what the last one has to say. -/
def load (bs : Octets) : Except ChainError CertificateChain :=
  match ofDer bs with
  | .ok chain => .ok chain
  | .error _ =>
    match ofPem bs with
    | .ok chain => .ok chain
    | .error _ => ofPkcs7 bs

/-- The chain in an envelope, where its certificates stand in the order of sets, not in that of the
chain. -/
def toPkcs7 (chain : CertificateChain) : Except ChainError Octets :=
  match (chain.mapM fun c => Canonical.certificate? c.der).bind SignedData.write? with
  | some bs => .ok bs
  | none => .error (.syntaxError "PKCS#7")

end CertificateChain

end AttestedKey
