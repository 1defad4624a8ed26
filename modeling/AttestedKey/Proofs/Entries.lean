import AttestedKey.Record.DecodeError
import Mathlib.Data.List.Forall2
import Mathlib.Data.List.Sigma

/-! Records that are read entry by entry. An entry is a key with a value of the key's own type. A
reader that takes the entries in turn, each by itself, and refuses a key it has had, comes to the
same as reading all of them and looking whether the keys differ: `toOption_foldlM`. After that the
order of the entries does not matter any more, as looking a key up does not depend on it. -/

namespace AttestedKey

theorem toOption_bind {α β : Type} (x : Decoded α) (f : α → Decoded β) :
    (x >>= f).toOption = x.toOption.bind fun a => (f a).toOption := by
  cases x <;> rfl

theorem toOption_eq_some_iff {α : Type} {x : Decoded α} {a : α} :
    x.toOption = some a ↔ x = .ok a := by
  cases x with
  | error e => exact ⟨fun h => (by cases h), fun h => (by cases h)⟩
  | ok b => exact ⟨fun h => (by cases h; rfl), fun h => (by cases h; rfl)⟩

theorem bind_eq_ok_iff {ε α β : Type} {x : Except ε α} {f : α → Except ε β} {b : β} :
    x >>= f = .ok b ↔ ∃ a, x = .ok a ∧ f a = .ok b := by
  cases x with
  | error e => exact ⟨fun h => (by cases h), fun ⟨a, h, _⟩ => (by cases h)⟩
  | ok a => exact ⟨fun h => ⟨a, rfl, h⟩, fun ⟨a', h, hf⟩ => (by cases h; exact hf)⟩

theorem bind_eq_error_iff {ε α β : Type} {x : Except ε α} {f : α → Except ε β} {e : ε} :
    x >>= f = .error e ↔ x = .error e ∨ ∃ a, x = .ok a ∧ f a = .error e := by
  cases x with
  | error e' =>
    exact ⟨fun h => .inl (by cases h; rfl), fun h => h.elim (fun h => (by cases h; rfl)) (by simp)⟩
  | ok a => exact ⟨fun h => .inr ⟨a, rfl, h⟩,
      fun h => h.elim (by simp) fun ⟨a', h, hf⟩ => (by cases h; exact hf)⟩

/-- After a step that succeeds comes the rest. -/
theorem bind_ok {α β : Type} {x : Decoded α} {a : α} (h : x = .ok a) (f : α → Decoded β) :
    x >>= f = f a := by
  rw [h]
  rfl

/-- A list reads as what its members read as. -/
theorem mapM_eq_ok_iff {ε α β : Type} {read : β → Except ε α} {bs : List β} {as : List α} :
    bs.mapM read = .ok as ↔ List.Forall₂ (fun b a => read b = .ok a) bs as := by
  induction bs generalizing as with
  | nil =>
    rw [List.mapM_nil, List.forall₂_nil_left_iff]
    exact ⟨fun h => (Except.ok.inj h).symm, fun h => congrArg Except.ok h.symm⟩
  | cons b bs ih =>
    simp only [List.mapM_cons, bind_eq_ok_iff, ih, List.forall₂_cons_left_iff]
    constructor
    · rintro ⟨a, ha, more, hmore, h⟩
      cases h
      exact ⟨a, more, ha, hmore, rfl⟩
    · rintro ⟨a, more, ha, hmore, rfl⟩
      exact ⟨a, ha, more, hmore, rfl⟩

/-- A list reads as what its members read as. -/
theorem mapM_eq_some_iff_forall₂ {α β : Type} {read : β → Option α} {bs : List β} {as : List α} :
    bs.mapM read = some as ↔ List.Forall₂ (fun b a => read b = some a) bs as := by
  induction bs generalizing as with
  | nil =>
    rw [List.mapM_nil, List.forall₂_nil_left_iff]
    exact ⟨fun h => (Option.some.inj h).symm, fun h => congrArg some h.symm⟩
  | cons b bs ih =>
    simp only [List.mapM_cons, Option.bind_eq_bind, Option.bind_eq_some_iff, ih,
      List.forall₂_cons_left_iff]
    constructor
    · rintro ⟨a, ha, more, hmore, h⟩
      cases h
      exact ⟨a, more, ha, hmore, rfl⟩
    · rintro ⟨a, more, ha, hmore, rfl⟩
      exact ⟨a, ha, more, hmore, rfl⟩

/-- What stands at a place in the one list is related to what stands there in the other. -/
theorem exists_getElem?_of_forall₂ {α β : Type} {R : α → β → Prop} {as : List α} {bs : List β}
    (h : List.Forall₂ R as bs) {i : Nat} {a : α} (ha : as[i]? = some a) :
    ∃ b, bs[i]? = some b ∧ R a b := by
  induction h generalizing i with
  | nil => cases ha
  | cons hab _ ih =>
    cases i with
    | zero =>
      cases ha
      exact ⟨_, rfl, hab⟩
    | succ i => exact ih ha

/-- What goes wrong along a list goes wrong at the first member that the steps cannot take,
whatever follows it. -/
theorem foldlM_eq_error_iff {ε β σ : Type} {step : σ → β → Except ε σ} {bs : List β} {s : σ}
    {e : ε} :
    bs.foldlM step s = .error e ↔
      ∃ before b after s', bs = before ++ b :: after ∧ before.foldlM step s = .ok s' ∧
        step s' b = .error e := by
  constructor
  · intro h
    induction bs generalizing s with
    | nil => cases h
    | cons b bs ih =>
      rw [List.foldlM_cons, bind_eq_error_iff] at h
      rcases h with h | ⟨mid, hmid, h⟩
      · exact ⟨[], b, bs, s, rfl, rfl, h⟩
      · obtain ⟨before, c, after, s', rfl, hbefore, hc⟩ := ih h
        exact ⟨b :: before, c, after, s', rfl, by rw [List.foldlM_cons, hmid]; exact hbefore, hc⟩
  · rintro ⟨before, b, after, s', rfl, hbefore, hb⟩
    rw [List.foldlM_append, hbefore]
    change List.foldlM step s' (b :: after) = .error e
    rw [List.foldlM_cons, hb]
    rfl

theorem length_le_length_flatMap {α β : Type} {f : α → List β} {as : List α}
    (h : ∀ a ∈ as, f a ≠ []) : as.length ≤ (as.flatMap f).length := by
  induction as with
  | nil => exact Nat.zero_le _
  | cons a as ih =>
    obtain ⟨ha, has⟩ := List.forall_mem_cons.1 h
    have hpos := List.length_pos_iff.2 ha
    have hle := ih has
    rw [List.flatMap_cons, List.length_append, List.length_cons]
    omega

/-- A list of images is the image of a list. -/
theorem exists_map_eq {α β : Type} {f : α → β} {P : α → Prop} {bs : List β}
    (h : ∀ b ∈ bs, ∃ a, P a ∧ f a = b) : ∃ as : List α, (∀ a ∈ as, P a) ∧ as.map f = bs := by
  induction bs with
  | nil => exact ⟨[], by simp, rfl⟩
  | cons b bs ih =>
    obtain ⟨a, ha, rfl⟩ := h b List.mem_cons_self
    obtain ⟨as, has, rfl⟩ := ih fun b hb => h b (List.mem_cons_of_mem _ hb)
    exact ⟨a :: as, List.forall_mem_cons.2 ⟨ha, has⟩, rfl⟩

namespace Entries

/-- Reading all of a list is reading each of it. -/
theorem mapM_eq_some_iff {α β : Type} {read : β → Option α} {bs : List β} {es : List α} :
    bs.mapM read = some es ↔ (∀ b ∈ bs, (read b).isSome) ∧ es = bs.filterMap read := by
  induction bs generalizing es with
  | nil => exact ⟨fun h => ⟨by simp, (Option.some.inj h).symm⟩, fun h => by rw [h.2]; rfl⟩
  | cons b bs ih =>
    rw [List.mapM_cons]
    cases hb : read b with
    | none => simp [hb]
    | some e =>
      cases hbs : bs.mapM read with
      | none =>
        have hnot : ¬ ∀ b ∈ bs, (read b).isSome := fun h => by simpa [hbs] using ih.2 ⟨h, rfl⟩
        simp [hb, hnot]
      | some more =>
        obtain ⟨hall, rfl⟩ := ih.1 hbs
        constructor
        · intro h
          rw [List.filterMap_cons_some hb]
          exact ⟨List.forall_mem_cons.2 ⟨by rw [hb]; rfl, hall⟩, (Option.some.inj h).symm⟩
        · rintro ⟨-, rfl⟩
          rw [List.filterMap_cons_some hb]
          rfl

theorem mapM_congr {α β : Type} {read read' : β → Option α} {bs : List β}
    (h : ∀ b ∈ bs, read b = read' b) : bs.mapM read = bs.mapM read' := by
  induction bs with
  | nil => rfl
  | cons b bs ih =>
    rw [List.mapM_cons, List.mapM_cons, h b List.mem_cons_self,
      ih fun c hc => h c (List.mem_cons_of_mem b hc)]

/-- Reading all and then reading on is reading each on. -/
theorem bind_mapM_mapM {α β γ : Type} (read : α → Option β) (more : β → Option γ) (as : List α) :
    ((as.map read).mapM id).bind (List.mapM more) = as.mapM fun a => (read a).bind more := by
  induction as with
  | nil => rfl
  | cons a as ih =>
    rw [List.map_cons, List.mapM_cons, List.mapM_cons, ← ih]
    cases read a with
    | none => rfl
    | some b =>
      cases hbs : (as.map read).mapM id with
      | none => cases more b <;> simp
      | some bs => simp [List.mapM_cons]

/-- What is made of the readings does not depend on their order if they are made into the same in
any order. -/
theorem bind_mapM_eq_of_perm {α β γ : Type} {read : β → Option α} {f : List α → Option γ}
    (hf : ∀ es es', es.Perm es' → f es = f es') {bs bs' : List β} (h : bs.Perm bs') :
    (bs.mapM read).bind f = (bs'.mapM read).bind f := by
  have transfer : ∀ {bs bs' : List β}, bs.Perm bs' → ∀ x, (bs.mapM read).bind f = some x →
      (bs'.mapM read).bind f = some x := by
    intro bs bs' h x hx
    obtain ⟨es, hread, hes⟩ := Option.bind_eq_some_iff.1 hx
    obtain ⟨hall, rfl⟩ := mapM_eq_some_iff.1 hread
    have hread' : bs'.mapM read = some (bs'.filterMap read) :=
      mapM_eq_some_iff.2 ⟨fun b hb => hall b (h.mem_iff.2 hb), rfl⟩
    rw [hread', Option.bind_some, ← hf _ _ (h.filterMap read), hes]
  exact Option.ext fun x => ⟨transfer h x, transfer h.symm x⟩

section

variable {κ : Type} {V : κ → Type} {es : List (Sigma V)}

instance decidableNodupKeys [DecidableEq κ] (es : List (Sigma V)) : Decidable es.NodupKeys :=
  inferInstanceAs (Decidable es.keys.Nodup)

theorem nodupKeys_append_singleton {e : Sigma V} :
    (es ++ [e]).NodupKeys ↔ es.NodupKeys ∧ e.1 ∉ es.keys := by
  rw [List.perm_nodupKeys List.perm_append_comm, List.singleton_append, List.nodupKeys_cons,
    and_comm]

theorem not_nodupKeys_of_mem {e : Sigma V} (h : e.1 ∈ es.keys) (more : List (Sigma V)) :
    ¬ (es ++ e :: more).NodupKeys := by
  intro hn
  have hsub : (es ++ [e]).Sublist (es ++ e :: more) :=
    List.Sublist.append_left (List.singleton_sublist.2 List.mem_cons_self) es
  exact (nodupKeys_append_singleton.1 (hn.sublist hsub)).2 h

/-- The keys of what has been read differ if no two of the readings have the same. -/
theorem nodupKeys_iff {β : Type} {read : β → Option (Sigma V)} {bs : List β}
    (hread : bs.mapM read = some es) :
    es.NodupKeys ↔ bs.Pairwise fun b b' => ∀ e ∈ read b, ∀ e' ∈ read b', e.1 ≠ e'.1 := by
  obtain ⟨-, rfl⟩ := mapM_eq_some_iff.1 hread
  unfold List.NodupKeys List.keys List.Nodup
  rw [List.pairwise_map, List.pairwise_filterMap]
  rfl

/-- Entries can be read and differ in their keys if each can be read, and they differ in what tells
the keys. -/
theorem exists_nodupKeys_iff {β γ : Type} {read : β → Option (Sigma V)} {key : β → γ}
    (hkey : ∀ b b' e e', read b = some e → read b' = some e' → (e.1 = e'.1 ↔ key b = key b'))
    {bs : List β} :
    (∃ es, bs.mapM read = some es ∧ es.NodupKeys) ↔
      (∀ b ∈ bs, (read b).isSome) ∧ bs.Pairwise fun b b' => key b ≠ key b' := by
  have hdiffer : (∀ b ∈ bs, (read b).isSome) →
      ((bs.Pairwise fun b b' => ∀ e ∈ read b, ∀ e' ∈ read b', e.1 ≠ e'.1) ↔
        bs.Pairwise fun b b' => key b ≠ key b') := by
    intro hall
    refine List.Pairwise.iff_of_mem fun {b b'} hb hb' => ?_
    obtain ⟨e, he⟩ := Option.isSome_iff_exists.1 (hall b hb)
    obtain ⟨e', he'⟩ := Option.isSome_iff_exists.1 (hall b' hb')
    simp [he, he', hkey b b' e e' he he']
  constructor
  · rintro ⟨es, hread, hn⟩
    have hall := (mapM_eq_some_iff.1 hread).1
    exact ⟨hall, (hdiffer hall).1 ((nodupKeys_iff hread).1 hn)⟩
  · rintro ⟨hall, hkeys⟩
    have hread : bs.mapM read = some (bs.filterMap read) := mapM_eq_some_iff.2 ⟨hall, rfl⟩
    exact ⟨_, hread, (nodupKeys_iff hread).2 ((hdiffer hall).2 hkeys)⟩

end

variable {κ : Type} [DecidableEq κ] {V : κ → Type} {es : List (Sigma V)}

/-- An entry with a new key is what is found under its key, and nothing else changes. -/
theorem dlookup_append_singleton (e : Sigma V) (h : e.1 ∉ es.keys) (j : κ) :
    (es ++ [e]).dlookup j = Function.update (fun j => es.dlookup j) e.1 (some e.2) j := by
  obtain ⟨k, x⟩ := e
  rw [List.dlookup_append]
  by_cases hj : j = k
  · subst hj
    rw [List.dlookup_eq_none.2 h, Function.update_self, List.dlookup_cons_eq]
    rfl
  · rw [Function.update_of_ne hj, List.dlookup_cons_ne _ _ hj, List.dlookup_nil, Option.or_none]

/-- What looking keys up makes of entries that differ in their keys does not depend on their
order. -/
theorem ite_nodupKeys_eq_of_perm {σ : Type} {state : List (Sigma V) → σ}
    (hstate : ∀ es es' : List (Sigma V), (∀ k, es.dlookup k = es'.dlookup k) → state es = state es')
    {es es' : List (Sigma V)} (h : es.Perm es') :
    (if es.NodupKeys then some (state es) else none) =
      if es'.NodupKeys then some (state es') else none := by
  have hn := List.perm_nodupKeys h
  by_cases hes : es.NodupKeys
  · rw [if_pos hes, if_pos (hn.1 hes), hstate es es' fun k => List.perm_dlookup k hes h]
  · rw [if_neg hes, if_neg fun hes' => hes (hn.2 hes')]

variable {β : Type} {read : β → Option (Sigma V)} {bs : List β}

/-- What is found among entries that differ in their keys is what some entry reads as. -/
theorem dlookup_eq_some_iff (hread : bs.mapM read = some es) (hn : es.NodupKeys) {k : κ} {x : V k} :
    es.dlookup k = some x ↔ ∃ b ∈ bs, read b = some ⟨k, x⟩ := by
  obtain ⟨-, rfl⟩ := mapM_eq_some_iff.1 hread
  rw [← Option.mem_def, List.mem_dlookup_iff hn, List.mem_filterMap]

variable {σ : Type} {state : List (Sigma V) → σ} {step : σ → β → Decoded σ}

theorem toOption_foldlM_from
    (hstep : ∀ es b, (step (state es) b).toOption =
      (read b).bind fun e => if (es.dlookup e.1).isSome then none else some (state (es ++ [e])))
    (bs : List β) (hn : es.NodupKeys) :
    (bs.foldlM step (state es)).toOption = (bs.mapM read).bind fun more =>
      if (es ++ more).NodupKeys then some (state (es ++ more)) else none := by
  -- along the items, with all that has been read in `es`, no two entries of which have the same key
  induction bs generalizing es with
  | nil =>
    rw [List.mapM_nil, Option.pure_def, Option.bind_some, List.append_nil, if_pos hn]
    rfl
  | cons b bs ih =>
    rw [List.foldlM_cons, toOption_bind, hstep, List.mapM_cons]
    cases read b with
    | none => rfl
    | some e =>
      simp only [Option.bind_some, Option.bind_eq_bind, Option.bind_assoc, Option.pure_def]
      split
      · next hmem =>
        cases bs.mapM read with
        | none => rfl
        | some more => exact (if_neg (not_nodupKeys_of_mem (List.dlookup_isSome.1 hmem) more)).symm
      · next hmem =>
        rw [Option.bind_some,
          ih (nodupKeys_append_singleton.2 ⟨hn, fun h => hmem (List.dlookup_isSome.2 h)⟩)]
        simp only [List.append_assoc, List.singleton_append]

/-- If each step reads an entry and refuses a key that has been, then the entries are read one by
one, and refused together if two have the same key. -/
theorem toOption_foldlM
    (hstep : ∀ es b, (step (state es) b).toOption =
      (read b).bind fun e => if (es.dlookup e.1).isSome then none else some (state (es ++ [e])))
    (bs : List β) :
    (bs.foldlM step (state [])).toOption = (bs.mapM read).bind fun es =>
      if es.NodupKeys then some (state es) else none :=
  toOption_foldlM_from hstep bs List.nodupKeys_nil

end Entries

end AttestedKey
