import AttestedKey.Http
import AttestedKey.Revocation.Document
import AttestedKey.Revocation.SerialKey
import AttestedKey.Utf8
import Std.Data.HashMap

/-! What is known about revoked certificates: the entries of the status list loaded last, by serial
number, or nothing as long as none was. -/

namespace AttestedKey

inductive StoreError where
  | syntaxError (detail : String)
  | fetch (detail : String)
  | crypto (detail : String)
  deriving DecidableEq, Repr

namespace StoreError

def message : StoreError → String
  | syntaxError d => "Syntax error: " ++ d
  | fetch d => "Fetch error: " ++ d
  | crypto d => "Crypto error: " ++ d

def detail : StoreError → String
  | syntaxError d | fetch d | crypto d => d

end StoreError

inductive RevocationSource
  | network
  | bundled
  | unavailable
  deriving DecidableEq, Repr

structure RevocationStore where
  entries : Option (Std.HashMap String RevocationEntry) := none

namespace RevocationStore

def empty : RevocationStore := {}

def isAvailable (s : RevocationStore) : Bool := s.entries.isSome

def size (s : RevocationStore) : Nat := (s.entries.map (·.size)).getD 0

/-- The entry for a serial number, in whatever spelling. -/
def lookup (s : RevocationStore) (serial : String) : Option RevocationEntry :=
  s.entries.bind fun m => m[SerialKey.ofText serial]?

/-- The store that holds a document. Where several spellings of one serial number have an entry any
of them might be kept; here it is the last. -/
def ofDocument (d : RevocationDocument) : RevocationStore :=
  ⟨some (Std.HashMap.ofList (d.entries.map fun (k, e) => (SerialKey.ofText k, e)))⟩

/-- The store with the document's entries in place of its own, and how many there are. -/
def load (_ : RevocationStore) (json : String) : Except StoreError (Nat × RevocationStore) :=
  match RevocationDocument.parse? json with
  | some d => let s := ofDocument d; .ok (s.size, s)
  | none => .error (.syntaxError "malformed status list")

def defaultAddress : String := "https://android.googleapis.com/attestation/status"

/-- The text that a server sent, if there is one. Errors name the address that was asked, and that
of a status names it again. -/
def fetchedText (address : String) : HttpOutcome → Except StoreError String
  | .failed cause => .error (.fetch s!"{address}: {cause}")
  | .answered status body =>
    if 400 ≤ status then .error (.fetch s!"{address}: {address}: status code {status}")
    else (HttpOutcome.text status body).mapError fun cause =>
      .fetch s!"reading response from {address}: {cause}"

def loadFetched (s : RevocationStore) (outcome : HttpOutcome) (address : String := defaultAddress) :
    Except StoreError (Nat × RevocationStore) := do
  s.load (← fetchedText address outcome)

/-- What a server sent if it can be loaded, else the bundled copy if there is one. Only a malformed
bundled copy is an error. -/
def refresh (s : RevocationStore) (fetched : HttpOutcome) (bundled : Option String)
    (address : String := defaultAddress) : Except StoreError (RevocationSource × RevocationStore) :=
  match s.loadFetched fetched address with
  | .ok (_, s) => .ok (.network, s)
  | .error _ =>
    match bundled with
    | none => .ok (.unavailable, s)
    | some json => (s.load json).map fun (_, s) => (.bundled, s)

def request (address : String) : HttpRequest := { method := "GET", address := address }

end RevocationStore

/-- What an evaluation asks of whatever it takes for its revocation store. -/
class RevocationLookup (R : Type) where
  lookup : R → String → Option RevocationEntry
  isAvailable : R → Bool

instance : RevocationLookup RevocationStore := ⟨RevocationStore.lookup, RevocationStore.isAvailable⟩

end AttestedKey
