import AttestedKey.Command.Options
import AttestedKey.Evaluation.Chain
import AttestedKey.Report.Evaluation
import AttestedKey.Report.Provisioning

/-! Running a command as a dialogue with the files, the network and the clock around it. -/

namespace AttestedKey.Command

inductive Question where
  | read (path : String)
  | write (path : String) (content : Octets)
  | send (request : HttpRequest)
  | time

/-- Files that cannot be read or written answer with what the system says. -/
def Question.Answer : Question → Type
  | read _ => Except String Octets
  | write _ _ => Except String Unit
  | send _ => HttpOutcome
  | time => Instant

inductive Failure where
  | file (detail : String)
  | chain (error : ChainError)
  | store (error : StoreError)
  | provisioning (error : ProvisioningError)
  deriving DecidableEq, Repr

def Failure.message : Failure → String
  | file d => d
  | chain e => e.message
  | store e => e.message
  | provisioning e => e.message

inductive Result where
  | evaluation (evaluation : ChainEvaluation)
  | endpointKeys (keys : EndpointKeys)

def Result.json : Result → Json
  | evaluation e => Report.chainEvaluation e
  | endpointKeys k => Report.endpointKeys k

abbrev Running := ExceptT Failure (Dialogue Question.Answer)

namespace Running

def read (path : String) : Running Octets :=
  ExceptT.mk (.ask (.read path) fun answer => .done (answer.mapError .file))

def write (path : String) (content : Octets) : Running Unit :=
  ExceptT.mk (.ask (.write path content) fun answer => .done (answer.mapError .file))

def send (request : HttpRequest) : Running HttpOutcome :=
  ExceptT.mk (.ask (.send request) fun outcome => .done (.ok outcome))

def time : Running Instant := ExceptT.mk (.ask .time fun now => .done (.ok now))

def known {α ε : Type} (failure : ε → Failure) (x : Except ε α) : Running α :=
  ExceptT.mk (.done (x.mapError failure))

def readText (path : String) : Running String := do
  match Utf8.decode? (← read path) with
  | some s => pure s
  | none => throw (.file "stream did not contain valid UTF-8")

def session {α : Type} (s : Provisioning.Session α) : Running α :=
  ExceptT.mk do
    let partner : (q : Provisioning.Question) → Dialogue Question.Answer q.Answer := fun
      | .server request => .ask (.send request) .done
      | .device _ => .done (.error (.device "no device"))
    pure ((← s.run.run partner).mapError .provisioning)

end Running

def revocationFor (o : VerifyOptions) : Running RevocationStore := do
  let bundled ← match o.revocation with
    | none => pure none
    | some path => do pure (some (← .readText path))
  if o.fetchRevocation then
    let fetched ← .send (RevocationStore.request RevocationStore.defaultAddress)
    pure (← .known .store (RevocationStore.empty.refresh fetched bundled)).2
  else
    match bundled with
    | none => pure .empty
    | some json => pure (← .known .store (RevocationStore.empty.load json)).2

def anchorsFor [Cryptography] (o : VerifyOptions) : Running TrustAnchors := do
  match o.oemRoots with
  | none => pure .empty
  | some path =>
    let (count, anchors) := TrustAnchors.empty.addPem (← .read path)
    let _ ← .known .store count
    pure anchors

def runVerify [Cryptography] (o : VerifyOptions) : Running ChainEvaluation := do
  let chain ← .known .chain (CertificateChain.load (← .read o.chain))
  let revocation ← revocationFor o
  let anchors ← anchorsFor o
  let evaluation ← .known .chain (CertificateChain.evaluate chain ⟨revocation, anchors⟩ (← .time))
  if let some path := o.exportTo then
    .write path (← .known .chain chain.toPkcs7)
  pure evaluation

def runFetch (o : FetchOptions) (requestId : String) : Running EndpointKeys :=
  .session (ProvisioningClient.fetchEndpointKeys ⟨o.host, o.fingerprint, requestId⟩)

def run [Cryptography] (requestId : String) : Command → Running Result
  | verify o => do pure (.evaluation (← runVerify o))
  | fetchEndpointKeys o => do pure (.endpointKeys (← runFetch o requestId))

def title : Command → String
  | verify _ => "verification"
  | fetchEndpointKeys _ => "EEK fetch"

structure Printed where
  output : String := ""
  errors : String := ""
  deriving DecidableEq, Repr

def printed (c : Command) : Except Failure Result → Printed
  | .ok r => { output := r.json.pretty ++ "\n" ++ c.title ++ " successful\n" }
  | .error e => { errors := c.title ++ " failed: " ++ e.message ++ "\n" }

end AttestedKey.Command
