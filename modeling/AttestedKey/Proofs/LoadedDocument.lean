import AttestedKey.Proofs.StatusList
import Mathlib.Data.Finset.Card

/-! A revocation store that is changed in place by a run of calls. `InPlace` keeps what a call
changed before it failed, so that a list put in place by halves would show; `performed_load`,
`performed_fetch` and `performed_refresh` say that no call does that. What is in the store after a
run is the last document that could be read, whole, and nothing else (`Holds`), and the answer of a
refresh tells whose copy it is (`IsRefresh`). -/

namespace AttestedKey

/-- The serial numbers that a document has entries for, each in its one spelling. -/
def RevocationDocument.serials (d : RevocationDocument) : Finset String :=
  (d.entries.map fun e => SerialKey.ofText e.1).toFinset

/-- The document has the entry under the name. Of entries with literally the same name it has the
last. -/
def RevocationDocument.Has (d : RevocationDocument) (name : String)
    (entry : RevocationEntry) : Prop :=
  ∃ before after, d.entries = before ++ (name, entry) :: after ∧ ∀ e ∈ after, e.1 ≠ name

/-- A lookup gives an entry that some spelling of the serial number has, and nothing if none has
one. Which one it gives where several spellings have one is left open. -/
structure RevocationDocument.IsLookup (d : RevocationDocument) (serial : String)
    (found : Option RevocationEntry) : Prop where
  listed : ∀ entry, found = some entry →
    ∃ name, d.Has name entry ∧ SerialKey.ofText name = SerialKey.ofText serial
  unlisted : found = none ↔ SerialKey.ofText serial ∉ d.serials

namespace RevocationStore

/-- An operation on a store that it changes in place. What it changed before it failed stays
changed. -/
abbrev InPlace := ExceptT StoreError (StateM RevocationStore)

namespace InPlace

def load (json : String) : InPlace Nat := do
  match RevocationDocument.parse? json with
  | none => throw (.syntaxError "malformed status list")
  | some d =>
    set (ofDocument d)
    pure (ofDocument d).size

def fetch (address : String) (outcome : HttpOutcome) : InPlace Nat := do
  match fetchedText address outcome with
  | .error x => throw x
  | .ok json => load json

def refresh (address : String) (outcome : HttpOutcome) (bundled : Option String) :
    InPlace RevocationSource :=
  tryCatch (do let _ ← fetch address outcome; pure .network) fun _ =>
    match bundled with
    | none => pure .unavailable
    | some json => do let _ ← load json; pure .bundled

/-- What an operation answers and what store it leaves. -/
def performed {α : Type} (op : InPlace α) (s : RevocationStore) :
    Except StoreError α × RevocationStore :=
  op.run.run s

end InPlace

inductive Answer where
  | entries (count : Nat)
  | source (source : RevocationSource)
  deriving DecidableEq

def Call.perform : Call → InPlace Answer
  | load json => .entries <$> InPlace.load json
  | fetch address outcome => .entries <$> InPlace.fetch address outcome
  | refresh address outcome copy => .source <$> InPlace.refresh address outcome copy

def performAll (calls : List Call) : StateM RevocationStore Unit :=
  calls.forM fun c => do let _ ← c.perform.run

/-- What is in a store: all of the document loaded and nothing else, or nothing if there is none. -/
structure Holds (loaded : Option RevocationDocument) (s : RevocationStore) : Prop where
  contents : s = (loaded.map ofDocument).getD empty
  available : s.isAvailable = loaded.isSome
  size : s.size = (loaded.map fun d => d.serials.card).getD 0
  notLoaded : loaded = none → ∀ serial, s.lookup serial = none
  lookup : ∀ d, loaded = some d → ∀ serial, d.IsLookup serial (s.lookup serial)

/-- A call puts a document in place or leaves the store as it was. -/
structure IsStep (document : Option RevocationDocument) (s : RevocationStore)
    (answer : Except StoreError Answer) (t : RevocationStore) : Prop where
  loaded : ∀ d, document = some d → t = ofDocument d
  notLoaded : document = none → t = s
  failed : (∃ x, answer = .error x) → t = s
  available : s.isAvailable = true → t.isAvailable = true

structure IsLoad (document : Option RevocationDocument) (answer : Except StoreError Answer)
    (t : RevocationStore) : Prop where
  entries : answer = .ok (.entries t.size) ↔ ∃ d, document = some d
  error : (∃ x, answer = .error x) ↔ document = none

/-- A refresh tells whose copy it loaded, or that there was none, and fails over a malformed copy
only. -/
structure IsRefresh (outcome : HttpOutcome) (copy : Option String)
    (answer : Except StoreError Answer) : Prop where
  network : answer = .ok (.source .network) ↔ ∃ d, fetched? outcome = some d
  bundled : answer = .ok (.source .bundled) ↔
    fetched? outcome = none ∧ ∃ json d, copy = some json ∧ RevocationDocument.parse? json = some d
  unavailable : answer = .ok (.source .unavailable) ↔ fetched? outcome = none ∧ copy = none
  error : (∃ x, answer = .error x) ↔
    fetched? outcome = none ∧ ∃ json, copy = some json ∧ RevocationDocument.parse? json = none

/-- What the answer to a call tells of the store that the call leaves. -/
def Call.IsAnswer : Call → Except StoreError Answer → RevocationStore → Prop
  | load json, answer, t => IsLoad (RevocationDocument.parse? json) answer t
  | fetch _ outcome, answer, t => IsLoad (fetched? outcome) answer t
  | refresh _ outcome copy, answer, _ => IsRefresh outcome copy answer

theorem getElem?_insertMany (es : List (String × RevocationEntry))
    (m : Std.HashMap String RevocationEntry) (key : String) :
    (m.insertMany es)[key]? = ((es.reverse.find? fun e => e.1 == key).map (·.2)).or m[key]? := by
  induction es generalizing m with
  | nil => simp
  | cons e es ih =>
    rw [Std.HashMap.insertMany_cons, ih, List.reverse_cons, List.find?_append,
      Std.HashMap.getElem?_insert]
    cases es.reverse.find? fun e => e.1 == key with
    | some found => rfl
    | none => by_cases h : e.1 = key <;> simp [h]

theorem lookup_ofDocument_eq (d : RevocationDocument) (serial : String) :
    (ofDocument d).lookup serial =
      (d.entries.reverse.find? fun e => SerialKey.ofText e.1 == SerialKey.ofText serial).map
        (·.2) := by
  simp only [lookup, ofDocument, Option.bind_some, Std.HashMap.ofList_eq_insertMany_empty,
    getElem?_insertMany]
  rw [Std.HashMap.getElem?_empty, Option.or_none, ← List.map_reverse, List.find?_map,
    Option.map_map]
  rfl

theorem isLookup_ofDocument (d : RevocationDocument) (serial : String) :
    d.IsLookup serial ((ofDocument d).lookup serial) := by
  rw [lookup_ofDocument_eq]
  constructor
  · intro entry h
    obtain ⟨⟨name, entry⟩, hfound, rfl⟩ := Option.map_eq_some_iff.1 h
    obtain ⟨hkey, after, before, hsplit, hafter⟩ := List.find?_eq_some_iff_append.1 hfound
    have hentries : d.entries = before.reverse ++ (name, entry) :: after.reverse := by
      rw [← d.entries.reverse_reverse, hsplit]
      simp
    refine ⟨name, ⟨_, _, hentries, ?_⟩, eq_of_beq hkey⟩
    -- a later entry of the same name would have been found first
    intro e he hname
    simpa [hname, hkey] using hafter e (List.mem_reverse.1 he)
  · simp [RevocationDocument.serials]

theorem size_ofDocument (d : RevocationDocument) : (ofDocument d).size = d.serials.card := by
  simp only [size, ofDocument, Option.map_some, Option.getD_some]
  rw [← Std.HashMap.length_keys, ← List.toFinset_card_of_nodup Std.HashMap.nodup_keys]
  congr 1
  ext key
  simp [RevocationDocument.serials, Std.HashMap.mem_ofList]

theorem holds_ofDocument (loaded : Option RevocationDocument) :
    Holds loaded ((loaded.map ofDocument).getD empty) := by
  cases loaded with
  | none => exact ⟨rfl, rfl, rfl, fun _ _ => rfl, fun _ h => nomatch h⟩
  | some d =>
    refine ⟨rfl, rfl, size_ofDocument d, nofun, ?_⟩
    rintro _ ⟨⟩ serial
    exact isLookup_ofDocument d serial

namespace InPlace

theorem performed_bind {α β : Type} (op : InPlace α) (next : α → InPlace β) (s : RevocationStore) :
    performed (op >>= next) s = match performed op s with
      | (.ok a, t) => performed (next a) t
      | (.error x, t) => (.error x, t) := by
  simp only [performed, ExceptT.run_bind, StateT.run_bind]
  rcases op.run.run s with ⟨x | a, t⟩ <;> rfl

theorem performed_map {α β : Type} (f : α → β) (op : InPlace α) (s : RevocationStore) :
    performed (f <$> op) s = ((performed op s).1.map f, (performed op s).2) := by
  simp only [performed, ExceptT.run_map, StateT.run_map]
  rcases op.run.run s with ⟨x | a, t⟩ <;> rfl

/-- What handles a failure finds the store as the failed operation left it. -/
theorem performed_tryCatch {α : Type} (op : InPlace α) (handler : StoreError → InPlace α)
    (s : RevocationStore) :
    performed (tryCatch op handler) s = match performed op s with
      | (.ok a, t) => (.ok a, t)
      | (.error x, t) => performed (handler x) t := by
  simp only [performed, ExceptT.run_tryCatch, StateT.run_bind]
  rcases op.run.run s with ⟨x | a, t⟩ <;> rfl

theorem performed_load (json : String) (s : RevocationStore) :
    performed (load json) s = ((s.load json).map Prod.fst, s.afterwards (s.load json)) := by
  rw [load_eq]
  simp only [performed, load]
  cases RevocationDocument.parse? json <;> rfl

theorem performed_fetch (address : String) (outcome : HttpOutcome) (s : RevocationStore) :
    performed (fetch address outcome) s =
      ((s.loadFetched outcome address).map Prod.fst,
        s.afterwards (s.loadFetched outcome address)) := by
  unfold fetch loadFetched
  cases fetchedText address outcome with
  | error x => rfl
  | ok json => exact performed_load json s

theorem performed_refresh (address : String) (outcome : HttpOutcome) (copy : Option String)
    (s : RevocationStore) : performed (refresh address outcome copy) s =
      ((s.refresh outcome copy address).map Prod.fst,
        s.afterwards (s.refresh outcome copy address)) := by
  unfold refresh RevocationStore.refresh
  rw [performed_tryCatch, performed_bind, performed_fetch]
  cases s.loadFetched outcome address with
  | ok r => rfl
  | error x =>
    cases copy with
    | none => rfl
    | some json =>
      simp only [Except.map, afterwards, performed_bind, performed_load]
      cases s.load json <;> rfl

end InPlace

theorem performed_perform (c : Call) (s : RevocationStore) :
    (InPlace.performed c.perform s).2 = s.call c := by
  cases c with
  | load json => rw [Call.perform, InPlace.performed_map, InPlace.performed_load, call]
  | fetch address outcome => rw [Call.perform, InPlace.performed_map, InPlace.performed_fetch, call]
  | refresh address outcome copy =>
    rw [Call.perform, InPlace.performed_map, InPlace.performed_refresh, call]

theorem run_performAll (calls : List Call) (s : RevocationStore) :
    ((performAll calls).run s).2 = calls.foldl call s := by
  induction calls generalizing s with
  | nil => rfl
  | cons c rest ih =>
    rw [List.foldl_cons, ← performed_perform c s, ← ih]
    rfl

theorem load_cases (s : RevocationStore) (json : String) :
    (∃ d, RevocationDocument.parse? json = some d ∧
      s.load json = .ok ((ofDocument d).size, ofDocument d)) ∨
      ∃ x, RevocationDocument.parse? json = none ∧ s.load json = .error x := by
  rw [load_eq]
  cases RevocationDocument.parse? json with
  | some d => exact Or.inl ⟨d, rfl, rfl⟩
  | none => exact Or.inr ⟨_, rfl, rfl⟩

theorem refresh_cases (s : RevocationStore) (outcome : HttpOutcome) (copy : Option String)
    (address : String) :
    (∃ d, fetched? outcome = some d ∧
      s.refresh outcome copy address = .ok (.network, ofDocument d)) ∨
      fetched? outcome = none ∧
        (copy = none ∧ s.refresh outcome copy address = .ok (.unavailable, s) ∨
          ∃ json, copy = some json ∧
            ((∃ d, RevocationDocument.parse? json = some d ∧
                s.refresh outcome copy address = .ok (.bundled, ofDocument d)) ∨
              ∃ x, RevocationDocument.parse? json = none ∧
              s.refresh outcome copy address = .error x)) := by
  unfold refresh
  rcases s.loadFetched_cases outcome address with ⟨d, hd, hl⟩ | ⟨x, hd, hl⟩
  · left
    exact ⟨d, hd, by rw [hl]⟩
  · right
    refine ⟨hd, ?_⟩
    rw [hl]
    cases copy with
    | none => exact Or.inl ⟨rfl, rfl⟩
    | some json =>
      right
      refine ⟨json, rfl, ?_⟩
      rcases s.load_cases json with ⟨d, hp, hl⟩ | ⟨x, hp, hl⟩
      · exact Or.inl ⟨d, hp, by simp only [hl]; rfl⟩
      · exact Or.inr ⟨x, hp, by simp only [hl]; rfl⟩

theorem isLoad_of_cases {document : Option RevocationDocument} {s : RevocationStore}
    {loaded : Except StoreError (Nat × RevocationStore)}
    (h : (∃ d, document = some d ∧ loaded = .ok ((ofDocument d).size, ofDocument d)) ∨
      ∃ x, document = none ∧ loaded = .error x) :
    IsLoad document ((loaded.map Prod.fst).map .entries) (s.afterwards loaded) := by
  rcases h with ⟨d, rfl, rfl⟩ | ⟨x, rfl, rfl⟩
  · constructor <;> simp [Except.map, afterwards]
  · constructor <;> simp [Except.map]

theorem isRefresh_refresh (s : RevocationStore) (outcome : HttpOutcome) (copy : Option String)
    (address : String) :
    IsRefresh outcome copy (((s.refresh outcome copy address).map Prod.fst).map .source) := by
  rcases s.refresh_cases outcome copy address with ⟨d, hd, hr⟩ | ⟨hn,
    ⟨hc, hr⟩ | ⟨json, hc, ⟨d, hp, hr⟩ | ⟨x, hp, hr⟩⟩⟩
  · rw [hr]
    constructor <;> simp [Except.map, hd]
  · rw [hr]
    constructor <;> simp [Except.map, hn, hc]
  · rw [hr]
    constructor <;> simp [Except.map, hn, hc, hp]
  · rw [hr]
    constructor <;> simp [Except.map, hn, hc, hp]

theorem isAnswer_performed (c : Call) (s : RevocationStore) :
    c.IsAnswer (InPlace.performed c.perform s).1 (InPlace.performed c.perform s).2 := by
  cases c with
  | load json =>
    rw [Call.perform, InPlace.performed_map, InPlace.performed_load]
    exact isLoad_of_cases (s.load_cases json)
  | fetch address outcome =>
    rw [Call.perform, InPlace.performed_map, InPlace.performed_fetch]
    exact isLoad_of_cases (s.loadFetched_cases outcome address)
  | refresh address outcome copy =>
    rw [Call.perform, InPlace.performed_map, InPlace.performed_refresh]
    exact s.isRefresh_refresh outcome copy address

/-- A call that fails had no document to load. -/
theorem Call.IsAnswer.document?_eq_none {c : Call} {answer : Except StoreError Answer}
    {t : RevocationStore} (h : c.IsAnswer answer t) (hx : ∃ x, answer = .error x) :
    c.document? = none := by
  cases c with
  | load json => exact h.error.1 hx
  | fetch address outcome => exact h.error.1 hx
  | refresh address outcome copy =>
    obtain ⟨hn, json, hc, hp⟩ := h.error.1 hx
    rw [Call.document?, hn, hc, Option.none_or, Option.bind_some, hp]

theorem isStep_performed (c : Call) (s : RevocationStore) :
    IsStep c.document? s (InPlace.performed c.perform s).1 (InPlace.performed c.perform s).2 := by
  have hanswer := isAnswer_performed c s
  rw [performed_perform, call_eq] at *
  refine ⟨?_, ?_, ?_, ?_⟩
  · intro d hd
    rw [hd]
    rfl
  · intro hn
    rw [hn]
    rfl
  · intro hx
    rw [hanswer.document?_eq_none hx]
    rfl
  · intro ha
    cases c.document? with
    | none => exact ha
    | some d => rfl

/-- What any run of calls comes to, and what any further call then does. -/
structure IsRun (calls : List Call) (s : RevocationStore) : Prop where
  holds : Holds (lastLoaded? calls) s
  step : ∀ c : Call,
    IsStep c.document? s (InPlace.performed c.perform s).1 (InPlace.performed c.perform s).2
  answer : ∀ c : Call,
    c.IsAnswer (InPlace.performed c.perform s).1 (InPlace.performed c.perform s).2

/-- After any calls a store has the last document in it that could be read, and every call keeps it
so. -/
theorem performAll_isRun (calls : List Call) : IsRun calls ((performAll calls).run empty).2 := by
  have hs : ((performAll calls).run empty).2 = ((lastLoaded? calls).map ofDocument).getD empty := by
    rw [run_performAll, foldl_call]
  rw [hs]
  exact ⟨holds_ofDocument _, fun c => isStep_performed c _, fun c => isAnswer_performed c _⟩

end RevocationStore

end AttestedKey
