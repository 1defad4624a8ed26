import AttestedKey.Dialogue
import AttestedKey.Evaluation.Chain
import AttestedKey.KeyStore.Parameters

/-! Having a key store generate a key, and evaluating the attestation it comes with. -/

namespace AttestedKey

inductive PlatformError where
  | strongBoxUnavailable (detail : String)
  | deviceIdsUnavailable (detail : String)
  | keysNotProvisioned (detail : String)
  | unavailable (detail : String)
  deriving DecidableEq, Repr

namespace PlatformError

def message : PlatformError → String
  | strongBoxUnavailable d => "StrongBox unavailable: " ++ d
  | deviceIdsUnavailable d => "Device IDs unavailable: " ++ d
  | keysNotProvisioned d => "Attestation keys not provisioned: " ++ d
  | unavailable d => "Keystore unavailable: " ++ d

def detail : PlatformError → String
  | strongBoxUnavailable d | deviceIdsUnavailable d | keysNotProvisioned d | unavailable d => d

end PlatformError

inductive KeyStoreError where
  | platform (error : PlatformError)
  | missingChain (name : String)
  | chain (detail : String)
  deriving DecidableEq, Repr

namespace KeyStoreError

def message : KeyStoreError → String
  | platform e => "Platform error: " ++ e.message
  | missingChain name => "No certificate chain for " ++ name
  | chain d => "Chain error: " ++ d

def detail : KeyStoreError → String
  | platform e => e.detail
  | missingChain d | chain d => d

end KeyStoreError

inductive KeyStoreCall where
  | generate (parameters : KeyParameters)
  | chainOf (name : String)
  deriving DecidableEq, Repr

/-- Generating a key gives its chain, leaf first. -/
def KeyStoreCall.Answer : KeyStoreCall → Type
  | generate _ => Except PlatformError CertificateChain
  | chainOf _ => Option CertificateChain

structure AttestedChain where
  chain : CertificateChain
  evaluation : ChainEvaluation

namespace KeyParameters

abbrev Attesting := ExceptT KeyStoreError (Dialogue KeyStoreCall.Answer)

def generate (p : KeyParameters) : Attesting CertificateChain :=
  ExceptT.mk (.ask (.generate p) fun answer => .done (answer.mapError .platform))

def chainOf? (name : String) : Attesting (Option CertificateChain) :=
  ExceptT.mk (.ask (.chainOf name) fun answer => .done (.ok answer))

/-- Generates the attest key that is asked for, unless there is one already. -/
def generateAttestKey (p : KeyParameters) : Attesting Unit := do
  if let some name := p.attestKeyName then
    if (← chainOf? name).isNone then
      let _ ← (p.attestKey name).generate

/-- The chain of the attest key that is asked for; none belongs to the factory's key. -/
def attestKeyChain (p : KeyParameters) : Attesting CertificateChain := do
  match p.attestKeyName with
  | none => pure []
  | some name =>
    match ← chainOf? name with
    | some chain => pure chain
    | none => throw (.missingChain name)

/-- Generates the key, and evaluates its chain with that of the attest key behind it. -/
def attest {R : Type} [RevocationLookup R] [Cryptography] (p : KeyParameters)
    (context : TrustContext R) (time : Instant) : Attesting AttestedChain := do
  p.generateAttestKey
  let own ← p.generate
  let chain := own ++ (← p.attestKeyChain)
  match CertificateChain.evaluate chain context time with
  | .ok evaluation => pure ⟨chain, evaluation⟩
  | .error e => throw (.chain e.message)

end KeyParameters

end AttestedKey
