import AttestedKey.Proofs.SerialNumber
import AttestedKey.Revocation.Store

/-! A revocation store over any run of calls. A call either puts a whole document in place or
leaves the store as it was, so a store is always that of the last document loaded, and what it
answers for a serial number is a matter of that document's keys. -/

namespace AttestedKey

def RevocationDocument.Lists (d : RevocationDocument) (n : Nat) : Prop :=
  ∃ entry ∈ d.entries, SerialKey.Denotes entry.1 n

namespace RevocationStore

inductive Call
  | load (json : String)
  | fetch (address : String) (outcome : HttpOutcome)
  | refresh (address : String) (outcome : HttpOutcome) (bundled : Option String)

def afterwards {α : Type} (s : RevocationStore) :
    Except StoreError (α × RevocationStore) → RevocationStore
  | .ok (_, t) => t
  | .error _ => s

def call (s : RevocationStore) : Call → RevocationStore
  | .load json => s.afterwards (s.load json)
  | .fetch address outcome => s.afterwards (s.loadFetched outcome address)
  | .refresh address outcome bundled => s.afterwards (s.refresh outcome bundled address)

def after (calls : List Call) : RevocationStore := calls.foldl call empty

/-- The document a server sent, if its status is no error and its body is text. -/
def fetched? : HttpOutcome → Option RevocationDocument
  | .failed _ => none
  | .answered status body =>
    if 400 ≤ status then none
    else (HttpOutcome.text status body).toOption.bind RevocationDocument.parse?

/-- The document that a call loads: of a refresh, the one sent before the bundled one. -/
def Call.document? : Call → Option RevocationDocument
  | load json => RevocationDocument.parse? json
  | fetch _ outcome => fetched? outcome
  | refresh _ outcome bundled => (fetched? outcome).or (bundled.bind RevocationDocument.parse?)

def lastLoaded? (calls : List Call) : Option RevocationDocument :=
  (calls.filterMap Call.document?).getLast?

theorem load_eq (s : RevocationStore) (json : String) :
    s.load json = match RevocationDocument.parse? json with
      | some d => .ok ((ofDocument d).size, ofDocument d)
      | none => .error (.syntaxError "malformed status list") := rfl

theorem fetchedText_cases (address : String) (outcome : HttpOutcome) :
    (∃ json, fetchedText address outcome = .ok json ∧
      fetched? outcome = RevocationDocument.parse? json) ∨
      ∃ x, fetchedText address outcome = .error x ∧ fetched? outcome = none := by
  cases outcome with
  | failed cause => exact Or.inr ⟨_, rfl, rfl⟩
  | answered status body =>
    by_cases h : 400 ≤ status
    · right
      exact ⟨_, if_pos h, if_pos h⟩
    · simp only [fetchedText, fetched?, if_neg h]
      cases HttpOutcome.text status body with
      | error cause => exact Or.inr ⟨_, rfl, rfl⟩
      | ok json => exact Or.inl ⟨json, rfl, rfl⟩

theorem loadFetched_cases (s : RevocationStore) (outcome : HttpOutcome) (address : String) :
    (∃ d, fetched? outcome = some d ∧
      s.loadFetched outcome address = .ok ((ofDocument d).size, ofDocument d)) ∨
      ∃ x, fetched? outcome = none ∧ s.loadFetched outcome address = .error x := by
  unfold loadFetched
  rcases fetchedText_cases address outcome with ⟨json, htext, hfetched⟩ | ⟨x, htext, hfetched⟩
  · rw [htext, hfetched]
    change (∃ d, _ ∧ s.load json = _) ∨ ∃ x, _ ∧ s.load json = _
    rw [load_eq]
    cases RevocationDocument.parse? json with
    | none => exact Or.inr ⟨_, rfl, rfl⟩
    | some d => exact Or.inl ⟨d, rfl, rfl⟩
  · rw [htext]
    exact Or.inr ⟨x, hfetched, rfl⟩

/-- A call does all or nothing. -/
theorem call_eq (s : RevocationStore) (c : Call) :
    s.call c = (c.document?.map ofDocument).getD s := by
  cases c with
  | load json =>
    simp only [call, Call.document?, load_eq]
    cases RevocationDocument.parse? json <;> rfl
  | fetch address outcome =>
    simp only [call, Call.document?]
    rcases s.loadFetched_cases outcome address with ⟨d, hd, hl⟩ | ⟨x, hd, hl⟩
    · rw [hd, hl]; rfl
    · rw [hd, hl]; rfl
  | refresh address outcome bundled =>
    simp only [call, Call.document?, refresh]
    rcases s.loadFetched_cases outcome address with ⟨d, hd, hl⟩ | ⟨x, hd, hl⟩
    · rw [hd, hl]; rfl
    · rw [hd, hl]
      cases bundled with
      | none => rfl
      | some json =>
        simp only [load_eq, Option.bind_some, Option.none_or]
        cases RevocationDocument.parse? json <;> rfl

theorem foldl_call (calls : List Call) (s : RevocationStore) :
    calls.foldl call s = ((lastLoaded? calls).map ofDocument).getD s := by
  induction calls generalizing s with
  | nil => rfl
  | cons c rest ih =>
    rw [List.foldl_cons, ih, call_eq]
    unfold lastLoaded?
    cases hc : c.document? with
    | none => rw [List.filterMap_cons_none hc]; rfl
    | some d =>
      rw [List.filterMap_cons_some hc, List.getLast?_cons]
      cases (rest.filterMap Call.document?).getLast? <;> rfl

theorem after_eq (calls : List Call) :
    after calls = ((lastLoaded? calls).map ofDocument).getD empty :=
  foldl_call calls empty

theorem isAvailable_after (calls : List Call) :
    (after calls).isAvailable = true ↔ ∃ c ∈ calls, ∃ d, c.document? = some d := by
  have hsome : (after calls).isAvailable = (lastLoaded? calls).isSome := by
    rw [after_eq]
    cases lastLoaded? calls <;> rfl
  rw [hsome, lastLoaded?, List.getLast?_isSome, Ne, List.filterMap_eq_nil_iff]
  simp only [Option.eq_none_iff_forall_not_mem, Option.mem_def]
  simp only [not_forall, not_not, exists_prop]

theorem lookup_ofDocument (d : RevocationDocument) (n : Nat) :
    (∃ entry, (ofDocument d).lookup (SerialKey.spelled n) = some entry) ↔ d.Lists n := by
  simp only [lookup, ofDocument, Option.bind_some, RevocationDocument.Lists, SerialKey.denotes_iff]
  rw [← Option.isSome_iff_exists, ← Std.HashMap.mem_iff_isSome_getElem?, Std.HashMap.mem_ofList,
    List.contains_iff_mem, List.map_map, List.mem_map]
  rfl

/-- A serial number has an entry exactly if the last document loaded lists it. -/
theorem lookup_after (calls : List Call) (n : Nat) :
    (∃ entry, (after calls).lookup (SerialKey.spelled n) = some entry) ↔
      ∃ d, lastLoaded? calls = some d ∧ d.Lists n := by
  rw [after_eq]
  cases lastLoaded? calls with
  | none => simp [lookup, empty]
  | some d => simpa using lookup_ofDocument d n

end RevocationStore

end AttestedKey
