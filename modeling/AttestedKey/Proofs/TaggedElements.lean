import AttestedKey.Proofs.DerEncoding
import AttestedKey.Record.Knox
import Mathlib.Data.List.Sigma

/-! Records that are a SEQUENCE of explicitly tagged elements, of which none has to be there and
any may come again. A `Layout` says which elements there are and where in the record each belongs.
Whatever the layout, `ofObject_eq_ok_iff` says what is accepted and what it is taken for: every
object is an element with a known number and a content that reads as its value, and each field has
the value of the last element for it. What is written for a record reads as the record
(`RecordWritten.read`). Numbers of five octets are told apart modulo 2 ^ 32 only, and no other
element passes for a known one (`hasElement_isAliased`). -/

namespace AttestedKey.Knox

structure Form (α : Type) where
  read : Ber.Object → Decoded α
  Reads : Ber.Object → α → Prop
  Written : α → Octets → Prop
  read_eq_ok_iff : ∀ x a, read x = .ok a ↔ Reads x a
  read_written : ∀ a bs, Written a bs → bs.length < 0x10000000000000000 →
    ∀ what, Ber.Object.ofOctets what bs >>= read = .ok a

namespace Form

variable {α β : Type}

def map (f : α → β) (form : Form α) : Form β where
  read x := do pure (f (← form.read x))
  Reads x b := ∃ a, form.Reads x a ∧ b = f a
  Written b bs := ∃ a, form.Written a bs ∧ b = f a
  read_eq_ok_iff x b := by
    rw [bind_eq_ok_iff]
    refine exists_congr fun a => and_congr (form.read_eq_ok_iff x a) ?_
    exact ⟨fun h => (Except.ok.inj h).symm, fun h => congrArg Except.ok h.symm⟩
  read_written b bs h hlen what := by
    obtain ⟨a, ha, rfl⟩ := h
    rw [← bind_assoc, form.read_written a bs ha hlen what]
    rfl

end Form

structure Layout (Record : Type) where
  what : String
  Key : Type
  Value : Key → Type
  keys : List Key
  number : Key → Nat
  form : (k : Key) → Form (Value k)
  absent : Record
  field : Record → (k : Key) → Value k
  update : Record → (k : Key) → Value k → Record
  decEq : DecidableEq Key
  mem_keys : ∀ k, k ∈ keys
  number_inj : ∀ k j, number k = number j → k = j
  number_lt : ∀ k, number k < 0x100000000
  field_update_self : ∀ r k v, field (update r k v) k = v
  field_update_of_ne : ∀ r k v j, j ≠ k → field (update r k v) j = field r j
  ext : ∀ r r', (∀ k, field r k = field r' k) → r = r'

/-- All the objects of a SEQUENCE are opened, each of them context-specific and around one
object. -/
theorem taggedElements_eq_ok_iff {what : String} {x : Ber.Object} {es : List (Nat × Ber.Object)} :
    taggedElements what x = .ok es ↔ ∃ xs, x = .sequence xs ∧ List.Forall₂ (fun o e =>
      ∃ content, o = .tagged .context e.1 content ∧ Ber.read content = some (e.2, [])) xs es := by
  unfold taggedElements
  simp only [bind_eq_ok_iff, mapM_eq_ok_iff, Ber.Object.asSequence_eq_ok_iff]
  refine exists_congr fun xs => and_congr_right fun _ => ⟨fun h => h.imp ?_, fun h => h.imp ?_⟩
  · intro o e hoe
    split at hoe
    · cases hoe
    · next n content hcontext =>
      obtain ⟨inner, hinner, h⟩ := bind_eq_ok_iff.1 hoe
      cases h
      exact ⟨content, Ber.Object.context?_eq_some_iff.1 hcontext, readWhole_eq_ok_iff.1 hinner⟩
  · rintro o e ⟨content, rfl, hinner⟩
    exact bind_eq_ok_iff.2 ⟨e.2, readWhole_eq_ok_iff.2 hinner, rfl⟩

namespace Layout

attribute [instance] Layout.decEq

variable {Record : Type} (L : Layout Record)

def ofNumber? (n : Nat) : Option L.Key := L.keys.find? fun k => L.number k = n

abbrev Entry := Σ k : L.Key, L.Value k

def step (r : Record) (e : Nat × Ber.Object) : Decoded Record :=
  match L.ofNumber? e.1 with
  | some k => do pure (L.update r k (← (L.form k).read e.2))
  | none => unknown L.what e.1

def ofObject (x : Ber.Object) : Decoded Record :=
  do (← taggedElements L.what x).foldlM L.step L.absent

def IsElement (o : Ber.Object) (v : L.Entry) : Prop :=
  ∃ content inner, o = .tagged .context (L.number v.1) content ∧
    Ber.read content = some (inner, []) ∧
    (L.form v.1).Reads inner v.2

/-- The object holds elements only, and the last for each key makes the record. -/
def IsRecord (x : Ber.Object) (r : Record) : Prop :=
  ∃ xs vs, x = .sequence xs ∧ List.Forall₂ L.IsElement xs vs ∧
    ∀ k, L.field r k = (vs.reverse.dlookup k).getD (L.field L.absent k)

theorem ofNumber?_eq_some_iff {n : Nat} {k : L.Key} : L.ofNumber? n = some k ↔ L.number k = n := by
  unfold ofNumber?
  constructor
  · intro h
    simpa using List.find?_some h
  · intro h
    cases hfind : L.keys.find? fun j => L.number j = n with
    | none => exact absurd (List.find?_eq_none.1 hfind k (L.mem_keys k)) (by simpa using h)
    | some j =>
      have hj : L.number j = n := by simpa using List.find?_some hfind
      rw [L.number_inj j k (hj.trans h.symm)]

theorem step_eq {n : Nat} {k : L.Key} (h : L.number k = n) (r : Record) (x : Ber.Object) :
    L.step r (n, x) = (L.form k).read x >>= fun v => pure (L.update r k v) := by
  unfold step
  rw [L.ofNumber?_eq_some_iff.2 h]

def apply (r : Record) (v : L.Entry) : Record := L.update r v.1 v.2

/-- Of elements for the same key the last counts. -/
theorem field_foldl_apply (vs : List L.Entry) (r : Record) (k : L.Key) :
    L.field (vs.foldl L.apply r) k = (vs.reverse.dlookup k).getD (L.field r k) := by
  induction vs using List.reverseRecOn with
  | nil => rfl
  | append_singleton vs v ih =>
    obtain ⟨j, x⟩ := v
    rw [List.foldl_append, List.foldl_cons, List.foldl_nil, List.reverse_append,
      List.reverse_singleton, List.singleton_append, apply]
    by_cases hk : k = j
    · subst hk
      rw [L.field_update_self, List.dlookup_cons_eq, Option.getD_some]
    · rw [L.field_update_of_ne _ _ _ _ hk, List.dlookup_cons_ne _ _ hk, ih]

theorem step_eq_ok_iff {r r' : Record} {e : Nat × Ber.Object} :
    L.step r e = .ok r' ↔
      ∃ v : L.Entry, L.number v.1 = e.1 ∧ (L.form v.1).Reads e.2 v.2 ∧ r' = L.apply r v := by
  unfold step apply
  cases hk : L.ofNumber? e.1 with
  | none =>
    constructor
    · intro h
      cases h
    · rintro ⟨v, hv, -⟩
      rw [L.ofNumber?_eq_some_iff.2 hv] at hk
      cases hk
  | some k =>
    simp only [bind_eq_ok_iff, Form.read_eq_ok_iff]
    constructor
    · rintro ⟨x, hx, h⟩
      cases h
      exact ⟨⟨k, x⟩, L.ofNumber?_eq_some_iff.1 hk, hx, rfl⟩
    · rintro ⟨⟨j, x⟩, hj, hx, rfl⟩
      rw [L.ofNumber?_eq_some_iff.2 hj] at hk
      cases hk
      exact ⟨x, hx, rfl⟩

theorem foldlM_step_eq_ok_iff {es : List (Nat × Ber.Object)} {r r' : Record} :
    es.foldlM L.step r = .ok r' ↔ ∃ vs : List L.Entry,
      List.Forall₂ (fun e v => L.number v.1 = e.1 ∧ (L.form v.1).Reads e.2 v.2) es vs ∧
        r' = vs.foldl L.apply r := by
  induction es generalizing r with
  | nil =>
    rw [List.foldlM_nil]
    constructor
    · intro h
      cases h
      exact ⟨[], .nil, rfl⟩
    · rintro ⟨vs, hvs, rfl⟩
      cases hvs
      rfl
  | cons e es ih =>
    simp only [List.foldlM_cons, bind_eq_ok_iff, step_eq_ok_iff, ih]
    constructor
    · rintro ⟨_, ⟨v, hnumber, hread, rfl⟩, vs, hvs, rfl⟩
      exact ⟨v :: vs, .cons ⟨hnumber, hread⟩ hvs, rfl⟩
    · rintro ⟨vs, hvs, rfl⟩
      cases hvs with
      | @cons _ v _ vs hv hvs => exact ⟨_, ⟨v, hv.1, hv.2, rfl⟩, vs, hvs, rfl⟩

/-- Objects with number and content, and what the contents are read as, are elements. -/
theorem forall₂_isElement_iff {xs : List Ber.Object} {vs : List L.Entry} :
    List.Forall₂ L.IsElement xs vs ↔ ∃ es : List (Nat × Ber.Object),
      List.Forall₂ (fun o e => ∃ content, o = .tagged .context e.1 content ∧
        Ber.read content = some (e.2, [])) xs es ∧
        List.Forall₂ (fun e v => L.number v.1 = e.1 ∧ (L.form v.1).Reads e.2 v.2) es vs := by
  constructor
  · intro h
    induction h with
    | nil => exact ⟨[], .nil, .nil⟩
    | @cons o v xs vs hv _ ih =>
      obtain ⟨content, inner, ho, hinner, hread⟩ := hv
      obtain ⟨es, hxs, hvs⟩ := ih
      exact ⟨(L.number v.1, inner) :: es, .cons ⟨content, ho, hinner⟩ hxs, .cons ⟨rfl, hread⟩ hvs⟩
  · rintro ⟨es, hxs, hvs⟩
    induction hxs generalizing vs with
    | nil =>
      cases hvs
      exact .nil
    | cons ho _ ih =>
      obtain ⟨content, ho, hinner⟩ := ho
      cases hvs with
      | cons hv hvs => exact .cons ⟨content, _, hv.1 ▸ ho, hinner, hv.2⟩ (ih hvs)

theorem ofObject_eq_ok_iff {x : Ber.Object} {r : Record} :
    L.ofObject x = .ok r ↔ L.IsRecord x r := by
  unfold ofObject IsRecord
  simp only [bind_eq_ok_iff, taggedElements_eq_ok_iff, foldlM_step_eq_ok_iff, forall₂_isElement_iff]
  constructor
  · rintro ⟨es, ⟨xs, rfl, hxs⟩, vs, hvs, rfl⟩
    exact ⟨xs, vs, rfl, ⟨es, hxs, hvs⟩, L.field_foldl_apply vs L.absent⟩
  · rintro ⟨xs, vs, rfl, ⟨es, hxs, hvs⟩, hfields⟩
    refine ⟨es, ⟨xs, rfl, hxs⟩, vs, hvs, L.ext _ _ fun k => ?_⟩
    rw [hfields, L.field_foldl_apply]

/-- What is in a record was either left out or read off an object. -/
theorem IsRecord.field_eq_or {x : Ber.Object} {r : Record} (h : L.IsRecord x r) (k : L.Key) :
    L.field r k = L.field L.absent k ∨ ∃ inner, (L.form k).Reads inner (L.field r k) := by
  obtain ⟨xs, vs, -, helements, hfields⟩ := h
  rw [hfields k]
  cases hlookup : vs.reverse.dlookup k with
  | none => exact .inl rfl
  | some v =>
    have hmem : (⟨k, v⟩ : L.Entry) ∈ vs := List.mem_reverse.1 (List.of_mem_dlookup hlookup)
    obtain ⟨i, hi⟩ := List.mem_iff_getElem?.1 hmem
    obtain ⟨o, -, content, inner, -, -, hread⟩ := exists_getElem?_of_forall₂ helements.flip hi
    exact .inr ⟨inner, hread⟩

/-! ### What is written -/

def EntryWritten (v : L.Entry) (bs : Octets) : Prop :=
  ∃ content, (L.form v.1).Written v.2 content ∧ bs = Der.writeExplicit (L.number v.1) content

/-- The octets are the SEQUENCE of elements of the record, in any order; what it has like the
record of no elements may be left out. -/
def RecordWritten (r : Record) (bs : Octets) : Prop :=
  ∃ (vs : List L.Entry) (parts : List Octets), (∀ v ∈ vs, v.2 = L.field r v.1) ∧
    (∀ k, k ∉ vs.keys → L.field r k = L.field L.absent k) ∧ List.Forall₂ L.EntryWritten vs parts ∧
      bs = Der.writeSequence parts

theorem EntryWritten.encodes {v : L.Entry} {bs : Octets} (h : L.EntryWritten v bs) (depth : Nat) :
    ∃ o, Ber.Encodes (depth + 1) bs (some o) ∧
      (bs.length < 0x10000000000000000 → L.IsElement o v) := by
  obtain ⟨content, hcontent, rfl⟩ := h
  have hnumber : Ber.tagNumber? (L.number v.1) = some (L.number v.1) := by
    have := L.number_lt v.1
    rw [Ber.tagNumber?, if_pos (by omega), Nat.mod_eq_of_lt this]
  have hencodes := Ber.encodes_explicit depth (L.number v.1) content
  rw [hnumber] at hencodes
  refine ⟨_, hencodes, fun hlen => ?_⟩
  obtain ⟨inner, hinner, hread⟩ :=
    bind_eq_ok_iff.1 ((L.form v.1).read_written _ _ hcontent (Ber.length_explicit_lt hlen) L.what)
  exact ⟨content, inner, rfl, readWhole_eq_ok_iff.1 hinner,
    ((L.form v.1).read_eq_ok_iff _ _).1 hread⟩

theorem exists_elements {vs : List L.Entry} {parts : List Octets}
    (h : List.Forall₂ L.EntryWritten vs parts) (depth : Nat) :
    ∃ xs, List.Forall₂ (fun bs o => Ber.Encodes (depth + 1) bs (some o)) parts xs ∧
      (parts.flatten.length < 0x10000000000000000 → List.Forall₂ L.IsElement xs vs) := by
  induction h with
  | nil => exact ⟨[], .nil, fun _ => .nil⟩
  | cons hv _ ih =>
    obtain ⟨o, ho, helement⟩ := hv.encodes L depth
    obtain ⟨xs, hxs, helements⟩ := ih
    refine ⟨o :: xs, .cons ho hxs, fun hlen => ?_⟩
    rw [List.flatten_cons, List.length_append] at hlen
    exact .cons (helement (by omega)) (helements (by omega))

theorem RecordWritten.field_eq {r : Record} {vs : List L.Entry}
    (hvalues : ∀ v ∈ vs, v.2 = L.field r v.1)
    (habsent : ∀ k, k ∉ vs.keys → L.field r k = L.field L.absent k) (k : L.Key) :
    L.field r k = (vs.reverse.dlookup k).getD (L.field L.absent k) := by
  cases hlookup : vs.reverse.dlookup k with
  | none =>
    refine habsent k fun hk => ?_
    obtain ⟨v, hv, rfl⟩ := List.mem_map.1 hk
    exact List.dlookup_eq_none.1 hlookup (List.mem_map_of_mem (List.mem_reverse.2 hv))
  | some x => exact (hvalues _ (List.mem_reverse.1 (List.of_mem_dlookup hlookup))).symm

/-- What is written for a record reads as the record. -/
theorem RecordWritten.read {r : Record} {bs : Octets} (h : L.RecordWritten r bs)
    (hlen : bs.length < 0x10000000000000000) (what : String) :
    Ber.Object.ofOctets what bs >>= L.ofObject = .ok r := by
  obtain ⟨vs, parts, hvalues, habsent, hparts, rfl⟩ := h
  obtain ⟨xs, hxs, helements⟩ := L.exists_elements hparts 48
  refine (Ber.encodes_sequence_some hxs).bind_ofOctets hlen what L.ofObject
    (L.ofObject_eq_ok_iff.2 ?_)
  exact ⟨xs, vs, rfl, helements (Ber.length_content_lt hlen),
    RecordWritten.field_eq L hvalues habsent⟩

def recordForm : Form Record where
  read := L.ofObject
  Reads := L.IsRecord
  Written := L.RecordWritten
  read_eq_ok_iff _ _ := L.ofObject_eq_ok_iff
  read_written _ _ h := RecordWritten.read L h

theorem exists_recordWritten {r : Record}
    (h : ∀ k, L.field r k ≠ L.field L.absent k → ∃ bs, (L.form k).Written (L.field r k) bs) :
    ∃ bs, L.RecordWritten r bs := by
  classical
  let given := L.keys.filter fun k => L.field r k ≠ L.field L.absent k
  let entry (k : L.Key) : L.Entry := ⟨k, L.field r k⟩
  have hentries : ∀ k ∈ given, ∃ bs, L.EntryWritten (entry k) bs := by
    intro k hk
    obtain ⟨content, hcontent⟩ := h k (by simpa using (List.mem_filter.1 hk).2)
    exact ⟨_, content, hcontent, rfl⟩
  choose! write hwrite using hentries
  refine ⟨_, given.map entry, given.map write, fun v hv => ?_, fun k hk => ?_, ?_, rfl⟩
  · obtain ⟨k, -, rfl⟩ := List.mem_map.1 hv
    rfl
  · by_contra hne
    refine hk (List.mem_map.2 ⟨entry k, List.mem_map_of_mem ?_, rfl⟩)
    exact List.mem_filter.2 ⟨L.mem_keys k, by simpa using hne⟩
  · rw [List.forall₂_map_left_iff, List.forall₂_map_right_iff, List.forall₂_same]
    exact hwrite

/-! ### Elements of any number -/

def IsUnknown (n : Nat) : Prop := L.ofNumber? n = none

theorem not_isUnknown_number (k : L.Key) : ¬ L.IsUnknown (L.number k) := by
  rw [IsUnknown, L.ofNumber?_eq_some_iff.2 rfl]
  exact Option.some_ne_none k

/-- No element's number, but what is kept of it in 32 bits is one. -/
def IsAliased (n : Nat) : Prop :=
  0x100000000 ≤ n ∧ n < 0x800000000 ∧ (L.ofNumber? (n % 0x100000000)).isSome

theorem IsAliased.isUnknown {n : Nat} (h : L.IsAliased n) : L.IsUnknown n := by
  unfold IsUnknown
  cases hk : L.ofNumber? n with
  | none => rfl
  | some k =>
    have hlt := L.number_lt k
    rw [L.ofNumber?_eq_some_iff.1 hk] at hlt
    exact absurd h.1 (by omega)

end Layout

def sequenceOf (es : List (Nat × Octets)) : Octets :=
  Der.writeSequence (es.map fun e => Der.writeExplicit e.1 e.2)

def HasElement (p : Nat → Octets → Prop) (bs : Octets) : Prop :=
  ∃ es, bs = sequenceOf es ∧ ∃ e ∈ es, p e.1 e.2

theorem HasElement.imp {p q : Nat → Octets → Prop} {bs : Octets} (h : HasElement p bs)
    (hpq : ∀ n c, p n c → q n c) : HasElement q bs := by
  obtain ⟨es, rfl, e, he, hp⟩ := h
  exact ⟨es, rfl, e, he, hpq _ _ hp⟩

namespace Layout

variable {Record : Type} (L : Layout Record)

/-- Where a record comes of them, the elements have known numbers or such as cannot be told from
them, and contents that read as values. -/
theorem exists_read_of_mem {es : List (Nat × Octets)}
    (hlen : (sequenceOf es).length < 0x10000000000000000) {x : Ber.Object} {r : Record}
    (hx : Ber.read (sequenceOf es) = some (x, [])) (h : L.IsRecord x r) {e : Nat × Octets}
    (he : e ∈ es) :
    ∃ k inner x, (L.number k = e.1 ∨ L.IsAliased e.1 ∧ L.number k = e.1 % 0x100000000) ∧
      Ber.read e.2 = some (inner, []) ∧ (L.form k).Reads inner x := by
  obtain ⟨xs, vs, rfl, helements, -⟩ := h
  have hparts : List.Forall₂ (Ber.Encodes 49) (es.map fun e => Der.writeExplicit e.1 e.2)
      (es.map fun e => (Ber.tagNumber? e.1).map fun n => .tagged .context n e.2) := by
    rw [List.forall₂_map_left_iff, List.forall₂_map_right_iff, List.forall₂_same]
    exact fun e _ => Ber.encodes_explicit 48 e.1 e.2
  have htake := (Ber.encodes_sequence hparts hlen).2 []
  rw [List.append_nil] at htake
  obtain ⟨o, ho, heq⟩ := Option.map_eq_some_iff.1 (htake.symm.trans hx)
  cases heq
  obtain ⟨ys, hys, heq⟩ := Option.map_eq_some_iff.1 ho
  cases heq
  rw [mapM_eq_some_iff_forall₂, List.forall₂_map_left_iff] at hys
  -- the object at the place of the element, and what it was taken for
  obtain ⟨i, hi⟩ := List.mem_iff_getElem?.1 he
  obtain ⟨o, ho, hread⟩ := exists_getElem?_of_forall₂ hys hi
  obtain ⟨v, -, content, inner, rfl, hinner, hvalue⟩ := exists_getElem?_of_forall₂ helements ho
  obtain ⟨n, hn, htagged⟩ := Option.map_eq_some_iff.1 hread
  cases htagged
  refine ⟨v.1, inner, v.2, ?_, hinner, hvalue⟩
  unfold Ber.tagNumber? at hn
  split at hn
  · next hfive =>
    have hnumber : e.1 % 0x100000000 = L.number v.1 := Option.some.inj hn
    by_cases hsmall : e.1 < 0x100000000
    · exact .inl (by omega)
    · refine .inr ⟨⟨by omega, hfive, ?_⟩, hnumber.symm⟩
      rw [L.ofNumber?_eq_some_iff.2 hnumber.symm]
      rfl
  · cases hn

/-- Where a record comes of a SEQUENCE with an element of no known number, or with such content in
the element for a key, there is an element whose number is taken for a known one, or what follows
of the content where it is read. -/
theorem hasElement_isAliased {p q : Octets → Prop} {j : L.Key} {bs : Octets}
    (hlen : bs.length < 0x10000000000000000) {x : Ber.Object} {r : Record}
    (hx : Ber.read bs = some (x, []))
    (h : L.IsRecord x r)
    (hwithin : ∀ c inner v, c.length < 0x10000000000000000 → Ber.read c = some (inner, []) →
      (L.form j).Reads inner v → p c → q c)
    (hp : HasElement (fun n c => L.IsUnknown n ∨ n = L.number j ∧ p c) bs) :
    HasElement (fun n c => L.IsAliased n ∨ n = L.number j ∧ q c) bs := by
  obtain ⟨es, rfl, e, he, hp⟩ := hp
  refine ⟨es, rfl, e, he, ?_⟩
  obtain ⟨k, inner, v, hnumber | ⟨haliased, -⟩, hinner, hvalue⟩ := L.exists_read_of_mem hlen hx h he
  · have hcontent := Ber.length_explicit_lt (Ber.length_part_lt hlen (List.mem_map_of_mem he))
    rw [← hnumber] at hp ⊢
    obtain hk | ⟨hk, hp⟩ := hp
    · exact absurd hk (L.not_isUnknown_number k)
    · obtain rfl := L.number_inj k j hk
      exact .inr ⟨rfl, hwithin _ _ _ hcontent hinner hvalue hp⟩
  · exact .inl haliased

end Layout

end AttestedKey.Knox
