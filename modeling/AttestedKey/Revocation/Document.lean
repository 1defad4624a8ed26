import AttestedKey.Json.Reader
import AttestedKey.Revocation.Entry

/-! The status list document: an object whose member `entries` has a member for each certificate.
An object of known members may also be written as the array of their values. Known members must not
repeat, others are passed over. -/

namespace AttestedKey

/-- Entries in document order, by name as written. -/
structure RevocationDocument where
  entries : List (String × RevocationEntry)
  deriving DecidableEq, Repr

namespace RevocationDocument

open Json (Reading)

/-- The value of a member that may be there once; the outer `none` is a repetition. -/
def member? (name : String) (members : List (Option String × Reading)) : Option (Option Reading) :=
  match members.filter fun m => m.1 == some name with
  | [] => some none
  | [(_, v)] => some (some v)
  | _ => none

/-- A name alone, or as the one member of an object, with null for its value. -/
def variant? : Reading → Option String
  | .string s => s
  | .object [(name, .null)] => name
  | _ => none

def status? (v : Reading) : Option RevocationStatus := (variant? v).bind RevocationStatus.ofLabel?

/-- Null is no reason. -/
def reason? : Reading → Option (Option RevocationReason)
  | .null => some none
  | v => (variant? v).map fun s => some (RevocationReason.ofLabel s)

def entryOf? (status reason : Option Reading) : Option RevocationEntry := do
  let status ← (status.map status?).getD (some .revoked)
  let reason ← (reason.map reason?).getD (some none)
  pure ⟨status, reason⟩

/-- All names have to have a text. -/
def namesOf? (members : List (Option String × Reading)) : Option (List (String × Reading)) :=
  members.mapM fun (name, v) => name.map fun name => (name, v)

def oneEntry : Reading → Option RevocationEntry
  | .object members => do
    let _ ← namesOf? members
    entryOf? (← member? "status" members) (← member? "reason" members)
  | .array [] => entryOf? none none
  | .array [status] => entryOf? (some status) none
  | .array [status, reason] => entryOf? (some status) (some reason)
  | _ => none

def entries? : Reading → Option RevocationDocument
  | .object members => do
    let entries ← (← namesOf? members).mapM fun (name, v) => (oneEntry v).map fun e => (name, e)
    pure ⟨entries⟩
  | _ => none

def ofReading? : Reading → Option RevocationDocument
  | .object members => do
    let _ ← namesOf? members
    entries? (← ← member? "entries" members)
  | .array [entries] => entries? entries
  | _ => none

def parse? (s : String) : Option RevocationDocument := (Reading.ofText? s).bind ofReading?

end RevocationDocument

end AttestedKey
