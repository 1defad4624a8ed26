import AttestedKey.Proofs.WrittenElements

/-! What is given back for the parts of a certificate when they are encoded anew. It is the
encoding of an element that is its own form, and that conforms if the part does (`IsForm`). Sets
are put in order, and a mark that says no more than its absence is left out. -/

namespace AttestedKey.Canonical

open Der (Element element)

/-! ### Order -/

theorem le_total (a b : Octets) : (le a b || le b a) = true := by
  induction a generalizing b with
  | nil => rfl
  | cons x a ih =>
    cases b with
    | nil => simp [le]
    | cons y b =>
      have := ih b
      rcases Nat.lt_trichotomy x.toNat y.toNat with h | h | h
      · simp [le, UInt8.lt_iff_toNat_lt, h]
      · obtain rfl := UInt8.toNat_inj.1 h
        simpa [le] using this
      · simp [le, UInt8.lt_iff_toNat_lt, h]

theorem le_trans (a b c : Octets) (hab : le a b = true) (hbc : le b c = true) : le a c = true := by
  induction a generalizing b c with
  | nil => rfl
  | cons x a ih =>
    cases b with
    | nil => cases hab
    | cons y b =>
      cases c with
      | nil => cases hbc
      | cons z c =>
        simp only [le, Bool.or_eq_true, decide_eq_true_eq, Bool.and_eq_true, beq_iff_eq]
          at hab hbc ⊢
        rcases hab with h | ⟨rfl, h⟩
        · rcases hbc with h' | ⟨rfl, h'⟩
          · exact .inl (UInt8.lt_trans h h')
          · exact .inl h
        · rcases hbc with h' | ⟨rfl, h'⟩
          · exact .inl h'
          · exact .inr ⟨rfl, ih _ _ h h'⟩

theorem sorted?_of_pairwise {xs : List Octets} (h : xs.Pairwise fun a b => le a b = true)
    (hdistinct : distinct xs = true) : sorted? xs = some xs := by
  unfold sorted?
  rw [List.mergeSort_of_pairwise h]
  exact if_pos hdistinct

/-- What is in order stays so. -/
theorem sorted?_of_sorted? {xs ys : List Octets} (h : sorted? xs = some ys) :
    sorted? ys = some ys := by
  unfold sorted? at h
  dsimp only at h
  split at h
  · next hdistinct =>
    cases h
    exact sorted?_of_pairwise (List.pairwise_mergeSort le_trans le_total xs) hdistinct
  · cases h

theorem perm_of_sorted? {xs ys : List Octets} (h : sorted? xs = some ys) : ys.Perm xs := by
  unfold sorted? at h
  dsimp only at h
  split at h
  · cases h
    exact List.mergeSort_perm _ _
  · cases h

/-- What has octets is put in order by them. -/
theorem sorted?_map {α : Type} {f : α → Octets} {as : List α} {ys : List Octets}
    (h : sorted? (as.map f) = some ys) : ∃ as' : List α, as'.Perm as ∧ as'.map f = ys := by
  unfold sorted? at h
  dsimp only at h
  split at h
  · cases h
    refine ⟨as.mergeSort fun a b => le (f a) (f b), List.mergeSort_perm _ _, ?_⟩
    exact List.map_mergeSort fun _ _ _ _ => rfl
  · cases h

/-! ### Forms -/

/-- The element stands for another one when that is encoded anew, and for itself as well. -/
structure IsForm (part? : Element → Option Octets) (conforms : Element → Bool) (e form : Element) :
    Prop where
  taken : IsTaken form
  fixed : part? form = some form.raw
  conforms : conforms e = true → conforms form = true

def HasForms (part? : Element → Option Octets) (conforms : Element → Bool) : Prop :=
  ∀ e x, IsTaken e → part? e = some x → x.length < 0x10000000000000000 →
    ∃ form : Element, form.raw = x ∧ IsForm part? conforms e form

theorem HasForms.mapM {part? : Element → Option Octets} {conforms : Element → Bool}
    (h : HasForms part? conforms) {es : List Element} {xs : List Octets} (hes : ∀ e ∈ es, IsTaken e)
    (hxs : es.mapM part? = some xs) (hlen : xs.flatten.length < 0x10000000000000000) :
    ∃ forms : List Element, forms.map Element.raw = xs ∧ (∀ f ∈ forms, IsTaken f) ∧
      forms.mapM part? = some xs ∧
      (es.all conforms = true → forms.all conforms = true) := by
  induction es generalizing xs with
  | nil =>
    cases hxs
    exact ⟨[], rfl, by simp, rfl, fun h => h⟩
  | cons e es ih =>
    rw [List.mapM_cons] at hxs
    obtain ⟨x, hx, hxs⟩ := Option.bind_eq_some_iff.1 hxs
    obtain ⟨ys, hys, hxs⟩ := Option.bind_eq_some_iff.1 hxs
    cases hxs
    rw [List.flatten_cons, List.length_append] at hlen
    obtain ⟨form, rfl, hform⟩ := h e x (hes e List.mem_cons_self) hx (by omega)
    obtain ⟨forms, rfl, htaken, hfixed, hconforms⟩ :=
      ih (fun e he => hes e (List.mem_cons_of_mem _ he)) hys (by omega)
    refine ⟨form :: forms, rfl, List.forall_mem_cons.2 ⟨hform.taken, htaken⟩, ?_, fun hall => ?_⟩
    · rw [List.mapM_cons, hform.fixed, hfixed]
      rfl
    · rw [List.all_cons, Bool.and_eq_true_iff] at hall ⊢
      exact ⟨hform.conforms hall.1, hconforms hall.2⟩

/-- A sequence is put together from the parts that it is read as. -/
theorem sequence?_element {es : List Element} (h : ∀ e ∈ es, IsTaken e) :
    sequence? (element 0x30 (es.map Element.raw).flatten) = some es :=
  sequence?_eq_some_iff.2 ⟨rfl, h, rfl⟩

/-! ### Names -/

def attributes? (s : Element) : Option Octets := do
  let attributes ← set? s
  if attributes.all isAttribute then
    pure (Der.write 0x31 (← sorted? (attributes.map Element.raw)).flatten)
  else none

theorem name?_eq (e : Element) :
    name? e = (sequence? e).bind fun es => (es.mapM attributes?).map Der.writeSequence := by
  unfold name? attributes?
  cases sequence? e with
  | none => rfl
  | some es =>
    simp only [Option.bind_eq_bind, Option.bind_some]
    exact Option.map_eq_bind.symm

theorem hasForms_attributes :
    HasForms attributes? fun s =>
      (Conformance.listed? 17 s).any fun attributes => attributes.all Conformance.isAttribute := by
  intro e x he hx hlen
  obtain ⟨as, has, hx⟩ := Option.bind_eq_some_iff.1 hx
  split at hx
  · next hall =>
    obtain ⟨ys, hys, hx⟩ := Option.bind_eq_some_iff.1 hx
    cases hx
    obtain ⟨as', hperm, rfl⟩ := sorted?_map hys
    have htaken : ∀ a ∈ as', IsTaken a :=
      fun a ha => (set?_eq_some_iff.1 has).2.1 a (hperm.mem_iff.1 ha)
    have hset : set? (element 0x31 (as'.map Element.raw).flatten) = some as' :=
      set?_eq_some_iff.2 ⟨rfl, htaken, rfl⟩
    refine ⟨_, rfl, isTaken_element (by decide) rfl hlen, ?_, fun hconforms => ?_⟩
    · unfold attributes?
      rw [hset]
      simp only [Option.bind_eq_bind, Option.bind_some, hperm.all_eq, hall, if_true,
        sorted?_of_sorted? hys]
      rfl
    · rw [listed?_set has] at hconforms
      rw [listed?_set hset]
      simpa [hperm.all_eq] using hconforms
  · cases hx

theorem hasForms_name : HasForms name? Conformance.isName := by
  intro e x he hx hlen
  rw [name?_eq] at hx
  obtain ⟨es, hes, hx⟩ := Option.bind_eq_some_iff.1 hx
  obtain ⟨xs, hxs, rfl⟩ := Option.map_eq_some_iff.1 hx
  obtain ⟨forms, rfl, htaken, hfixed, hconforms⟩ :=
    hasForms_attributes.mapM (sequence?_eq_some_iff.1 hes).2.1 hxs (Ber.length_content_lt hlen)
  have hsequence := sequence?_element htaken
  refine ⟨_, rfl, isTaken_element (by decide) rfl hlen, ?_, fun h => ?_⟩
  · rw [name?_eq, hsequence, Option.bind_some, hfixed]
    rfl
  · unfold Conformance.isName at h ⊢
    rw [listed?_sequence hes] at h
    rw [listed?_sequence hsequence]
    exact hconforms h

/-! ### Extensions -/

/-- An element that is given back as it is. -/
theorem IsForm.self {part? : Element → Option Octets} {conforms : Element → Bool} {e : Element}
    (he : IsTaken e) (h : part? e = some e.raw) : IsForm part? conforms e e := ⟨he, h, id⟩

theorem hasForms_extension : HasForms extension? Conformance.isExtension := by
  intro e x he hx hlen
  obtain ⟨es, hes, hcase⟩ := Option.bind_eq_some_iff.1 hx
  split at hcase
  · next oid value =>
    split at hcase
    · cases hcase
      exact ⟨e, rfl, .self he hx⟩
    · cases hcase
  · next oid critical value =>
    split at hcase
    · next hparts =>
      simp only [Bool.and_eq_true] at hparts
      split at hcase
      · cases hcase
        exact ⟨e, rfl, .self he hx⟩
      · cases hcase
        -- the mark is left out
        have htaken : ∀ e ∈ [oid, value], IsTaken e := by
          have hall := (sequence?_eq_some_iff.1 hes).2.1
          simp only [List.forall_mem_cons] at hall ⊢
          exact ⟨hall.1, hall.2.2⟩
        have hsequence : sequence? (element 0x30 [oid.raw, value.raw].flatten) =
          some [oid, value] :=
          sequence?_element htaken
        refine ⟨_, rfl, isTaken_element (by decide) rfl hlen, ?_, fun h => ?_⟩
        · unfold extension?
          rw [hsequence]
          simp [hparts.1.1, hparts.2]
        · unfold Conformance.isExtension at h ⊢
          rw [element_sequence? hes] at h
          rw [element_sequence? hsequence]
          simp only [Bool.and_eq_true] at h ⊢
          exact ⟨h.1.1, h.2⟩
      · cases hcase
    · cases hcase
  · cases hcase

theorem extensions?_eq_some_iff {e : Element} {x : Octets} :
    extensions? e = some x ↔
      ∃ list parts xs, Canonical.all e.content = some [list] ∧ sequence? list = some parts ∧
      parts.mapM extension? = some xs ∧ Der.write 0xA3 (Der.writeSequence xs) = x := by
  constructor
  · intro h
    obtain ⟨es, hes, h⟩ := Option.bind_eq_some_iff.1 h
    split at h
    · next list =>
      obtain ⟨parts, hparts, h⟩ := Option.bind_eq_some_iff.1 h
      obtain ⟨xs, hxs, h⟩ := Option.bind_eq_some_iff.1 h
      exact ⟨list, parts, xs, hes, hparts, hxs, Option.some.inj h⟩
    · cases h
  · rintro ⟨list, parts, xs, hlist, hparts, hxs, rfl⟩
    unfold extensions?
    simp only [hlist, hparts, hxs, Option.bind_eq_bind, Option.bind_some, Option.pure_def]

theorem isExtensions_eq {e list : Element} {parts : List Element}
    (hlist : Canonical.all e.content = some [list]) (hparts : sequence? list = some parts) :
    Conformance.isExtensions e = (isContext 3 true e && parts.all Conformance.isExtension) := by
  rw [Conformance.isExtensions, element_context? hlist]
  cases isContext 3 true e with
  | false => rfl
  | true => simp [listed?_sequence hparts]

/-- The extensions, in their wrapper. -/
theorem exists_form_extensions {e : Element} {x : Octets} (hx : extensions? e = some x)
    (hlen : x.length < 0x10000000000000000) :
    ∃ form : Element, form.raw = x ∧ isContext 3 true form = true ∧
      IsForm extensions? Conformance.isExtensions e form := by
  obtain ⟨list, parts, xs, hlist, hparts, hxs, rfl⟩ := extensions?_eq_some_iff.1 hx
  have hinside := Ber.length_content_lt hlen
  obtain ⟨forms, rfl, htaken, hfixed, hconforms⟩ :=
    hasForms_extension.mapM (sequence?_eq_some_iff.1 hparts).2.1 hxs (Ber.length_content_lt hinside)
  have hsequence := sequence?_element htaken
  have hall : Canonical.all (element 0xA3 (Der.writeSequence (forms.map Element.raw))).content =
      some [element 0x30 (forms.map Element.raw).flatten] :=
    all_eq_some_iff.2 ⟨List.forall_mem_singleton.2 (isTaken_element (by decide) rfl hinside),
      by simp [element, Element.raw, Der.writeSequence, Der.write]⟩
  refine ⟨element 0xA3 (Der.writeSequence (forms.map Element.raw)), rfl, rfl,
    isTaken_element (by decide) rfl hlen,
    extensions?_eq_some_iff.2 ⟨_, _, _, hall, hsequence, hfixed, rfl⟩, fun h => ?_⟩
  rw [isExtensions_eq hlist hparts, Bool.and_eq_true_iff] at h
  rw [isExtensions_eq hall hsequence, Bool.and_eq_true_iff]
  exact ⟨rfl, hconforms h.2⟩

end AttestedKey.Canonical
