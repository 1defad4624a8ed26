import AttestedKey.Proofs.Properties
import AttestedKey.Proofs.Values

/-! An authorization list admits only what it knows. In either wire form a list decodes exactly if
every entry by itself says something and no two are about the same property, and then it holds what
its entries say. If it does not decode, then because of the first entry that those before it leave
no way to take; what follows it does not matter. -/

namespace AttestedKey

namespace AuthorizationList

structure EntryForm (β : Type) where
  IsFramed : β → Prop
  IsAbout : β → Option Tag → Prop
  Gives : β → PropertyEntry → Prop
  /-- What is wrong with the entry, and the error for it, after entries about the properties
  `seen`. -/
  Offends : (Option Tag → Prop) → β → DecodeError → Prop

def Wraps (x : Ber.Object) (t : Tag) (v : Ber.Object) : Prop :=
  ∃ content, x.context? = some (t.number, content) ∧ Ber.read content = some (v, [])

inductive ObjectOffence (seen : Option Tag → Prop) (x : Ber.Object) : DecodeError → Prop
  | untagged : x.context? = none →
      ObjectOffence seen x
        (.typeMismatch s!"authorization-list entries MUST be context-specific, got Tag({x.tag})")
  | unknown {n : Nat} {content : Octets} : x.context? = some (n, content) →
      (∀ t : Tag, t.number ≠ n) →
      ObjectOffence seen x (.unknownTag s!"{n} in authorization-list")
  | unframed {t : Tag} {content : Octets} {e : DecodeError} : x.context? = some (t.number,
      content) →
      Ber.Object.ofOctets t.label content = .error e → ObjectOffence seen x e
  | repeated {t : Tag} {v : Ber.Object} : Wraps x t v → seen (some t) →
      ObjectOffence seen x (.duplicatedTag t.text)
  | unread {t : Tag} {v : Ber.Object} {e : DecodeError} : Wraps x t v → ¬ seen (some t) →
      t.kind.read t.label v = .error e → ObjectOffence seen x e

/-- What can be wrong with a pair of items as an entry. A repeated key is refused before its value
is looked at. -/
inductive ItemOffence (seen : Option Tag → Prop) (x : Cbor.Item × Cbor.Item) : DecodeError → Prop
  | unkeyed : x.1.int? = none →
      ItemOffence seen x (.typeMismatch "authorization-list key MUST be integer")
  | unknown {n : Int} : x.1.int? = some n → n ≠ securityLevelClaim → (∀ t : Tag, t.claim ≠ n) →
      ItemOffence seen x (.unknownTag s!"{n} in authorization-list")
  | repeatedLevel : x.1.int? = some securityLevelClaim → seen none →
      ItemOffence seen x (.duplicatedTag "security-level")
  | unreadLevel {e : DecodeError} : x.1.int? = some securityLevelClaim → ¬ seen none →
      PropertyEntry.readLevel x.2 = .error e → ItemOffence seen x e
  | repeated {t : Tag} : x.1.int? = some t.claim → seen (some t) →
      ItemOffence seen x (.duplicatedTag t.text)
  | unread {t : Tag} {e : DecodeError} : x.1.int? = some t.claim → ¬ seen (some t) →
      t.kind.read t.label x.2 = .error e → ItemOffence seen x e

def objectEntries : EntryForm Ber.Object where
  IsFramed x := ∃ n content v, x.context? = some (n, content) ∧ Ber.read content = some (v, [])
  IsAbout x k := ∃ t content, k = some t ∧ x.context? = some (t.number, content)
  Gives x e := ∃ t v y, Wraps x t v ∧ t.kind.read t.label v = .ok y ∧ e = .property t y
  Offends := ObjectOffence

def claimOf (k : Option Tag) : Int := k.elim securityLevelClaim Tag.claim

/-- No property has the claim key of the security level. -/
theorem claim_ne_securityLevelClaim (t : Tag) : t.claim ≠ securityLevelClaim := by
  unfold Tag.claim Tag.tokenBase securityLevelClaim
  omega

theorem claimOf_injective : Function.Injective claimOf := by
  intro k k' h
  cases k with
  | none =>
    cases k' with
    | none => rfl
    | some t' => exact absurd h.symm (claim_ne_securityLevelClaim t')
  | some t =>
    cases k' with
    | none => exact absurd h (claim_ne_securityLevelClaim t)
    | some t' =>
      have h : t.claim = t'.claim := h
      rw [← Tag.ofClaim?_claim t, h, Tag.ofClaim?_claim]

def itemEntries : EntryForm (Cbor.Item × Cbor.Item) where
  IsFramed x := ∃ n, x.1.int? = some n
  IsAbout x k := x.1.int? = some (claimOf k)
  Gives x e :=
    (∃ l, x.1.int? = some securityLevelClaim ∧ PropertyEntry.readLevel x.2 = .ok l ∧ e = .level l) ∨
      ∃ t y, x.1.int? = some t.claim ∧ t.kind.read t.label x.2 = .ok y ∧ e = .property t y
  Offends := ItemOffence

def holds? (l : AuthorizationList) : (k : Option Tag) → Option (PropertyValueOf k)
  | none => l.securityLevel
  | some t => l.value? t

/-- Lists of entries of the form are decoded, or refused, for what the entries say. -/
structure IsAllowList {β : Type} (form : EntryForm β)
    (decode : List β → Decoded AuthorizationList) : Prop where
  succeeds : ∀ bs, (∃ l, decode bs = .ok l) ↔
    (∀ b ∈ bs, ∃ e, form.Gives b e) ∧ bs.Pairwise fun b b' => ∀ k, form.IsAbout b k →
      ¬ form.IsAbout b' k
  holds : ∀ bs l, decode bs = .ok l → ∀ k x, l.holds? k = some x ↔ ∃ b ∈ bs, form.Gives b ⟨k, x⟩
  present : ∀ bs l, decode bs = .ok l → ∀ k, (l.holds? k).isSome ↔ ∃ b ∈ bs, form.IsAbout b k
  flag : ∀ b t, t.kind = .flag → form.IsFramed b → form.IsAbout b (some t) →
    ∃ x, form.Gives b (.property t x)
  permuted : ∀ bs bs', bs.Perm bs' → (decode bs).toOption = (decode bs').toOption
  /-- What is refused is refused for the first entry that offends. -/
  fails : ∀ bs e, decode bs = .error e ↔ ∃ before b after, bs = before ++ b :: after ∧
    (∃ l, decode before = .ok l) ∧ form.Offends (fun k => ∃ b' ∈ before, form.IsAbout b' k) b e

theorem flag?_isSet (v : Option Unit) : flag? (isSet v) = v := by cases v <;> rfl

theorem value?_ofValues (level : Option SecurityLevel) (f : (t : Tag) → Option t.kind.Value)
    (t : Tag) : (ofValues level f).value? t = f t := by
  cases t <;> first | rfl | exact flag?_isSet _

theorem holds?_ofEntries (es : List PropertyEntry) (k : Option Tag) :
    (ofEntries es).holds? k = es.dlookup k := by
  cases k with
  | none => rfl
  | some t => exact value?_ofValues _ _ t

namespace Partial

variable {es : List PropertyEntry} {e : DecodeError}

theorem add_eq_error_iff {α : Type} [PropertyValue α] {t : Tag} {v : α} :
    (ofEntries es).add t v = .error e ↔
      some t ∈ es.keys ∧ .duplicatedTag t.text = e ∨
        some t ∉ es.keys ∧ t.kind.read t.label v = .error e := by
  have hset := set_ofValues (es.dlookup none) (fun u => es.dlookup (some u)) t v
  change (ofEntries es).list.set t v = _ at hset
  unfold add
  by_cases h : some t ∈ es.keys
  · rw [if_pos (mem_seen_iff.2 h)]
    simp [h]
  · rw [if_neg fun hs => h (mem_seen_iff.1 hs), hset]
    cases t.kind.read t.label v <;> simp [h, Except.map, bind, Except.bind, pure, Except.pure]

theorem addObject_eq_error_iff {x : Ber.Object} :
    (ofEntries es).addObject x = .error e ↔ ObjectOffence (fun k => k ∈ es.keys) x e := by
  unfold addObject
  constructor
  · intro h
    split at h
    · next hx =>
      cases h
      exact .untagged hx
    · next n content hx =>
      split at h
      · next hn =>
        cases h
        refine .unknown hx fun t ht => ?_
        rw [← ht, Tag.ofNumber?_number] at hn
        cases hn
      · next t hn =>
        obtain rfl := Tag.number_of_ofNumber? hn
        rcases bind_eq_error_iff.1 h with h | ⟨v, hv, h⟩
        · exact .unframed hx h
        · have hwraps : Wraps x t v := ⟨content, hx, readWhole_eq_ok_iff.1 hv⟩
          rcases add_eq_error_iff.1 h with ⟨hk, rfl⟩ | ⟨hk, hread⟩
          · exact .repeated hwraps hk
          · exact .unread hwraps hk hread
  · intro h
    have known : ∀ {t : Tag} {v : Ber.Object}, Wraps x t v → (ofEntries es).add t v = .error e →
        (ofEntries es).addObject x = .error e := by
      rintro t v ⟨content, hx, hv⟩ hadd
      have hv : Ber.Object.ofOctets t.label content = .ok v := readWhole_eq_ok_iff.2 hv
      unfold addObject
      simp only [hx, Tag.ofNumber?_number, bind_ok hv, hadd]
    cases h with
    | untagged hx => simp only [hx]
    | @unknown n content hx hn =>
      cases ht : Tag.ofNumber? n with
      | none => simp only [hx, ht]
      | some t => exact absurd (Tag.number_of_ofNumber? ht) (hn t)
    | unframed hx hv =>
      simp only [hx, Tag.ofNumber?_number]
      exact bind_eq_error_iff.2 (.inl hv)
    | repeated hwraps hk => exact known hwraps (add_eq_error_iff.2 (.inl ⟨hk, rfl⟩))
    | unread hwraps hk hread => exact known hwraps (add_eq_error_iff.2 (.inr ⟨hk, hread⟩))

section

variable {x : Cbor.Item × Cbor.Item}

theorem addEntry_unkeyed (p : Partial) (h : x.1.int? = none) :
    p.addEntry x = .error (.typeMismatch "authorization-list key MUST be integer") := by
  unfold addEntry Cbor.Item.asNumber
  rw [h]
  rfl

theorem addEntry_unknown (p : Partial) {n : Int} (h : x.1.int? = some n)
    (hlevel : n ≠ securityLevelClaim) (hn : ∀ t : Tag, t.claim ≠ n) :
    p.addEntry x = .error (.unknownTag s!"{n} in authorization-list") := by
  have hkey : x.1.asNumber "authorization-list key" = .ok n := by rw [Cbor.Item.asNumber, h]; rfl
  unfold addEntry
  rw [bind_ok hkey, if_neg hlevel]
  cases ht : Tag.ofClaim? n with
  | none => rfl
  | some t => exact absurd (Tag.claim_of_ofClaim? ht) (hn t)

theorem addEntry_claim (p : Partial) {t : Tag} (h : x.1.int? = some t.claim) :
    p.addEntry x = p.add t x.2 := by
  have hkey : x.1.asNumber "authorization-list key" = .ok t.claim := by
    rw [Cbor.Item.asNumber, h]; rfl
  unfold addEntry
  rw [bind_ok hkey, if_neg (claim_ne_securityLevelClaim t), Tag.ofClaim?_claim]

theorem addEntry_level_eq_error_iff (h : x.1.int? = some securityLevelClaim) :
    (ofEntries es).addEntry x = .error e ↔
      none ∈ es.keys ∧ .duplicatedTag "security-level" = e ∨
        none ∉ es.keys ∧ PropertyEntry.readLevel x.2 = .error e := by
  have hkey : x.1.asNumber "authorization-list key" = .ok securityLevelClaim := by
    rw [Cbor.Item.asNumber, h]; rfl
  have hseen : (ofEntries es).list.securityLevel.isSome ↔ none ∈ es.keys := List.dlookup_isSome
  unfold addEntry
  rw [bind_ok hkey, if_pos rfl, if_congr hseen rfl rfl, PropertyEntry.readLevel_bind]
  by_cases hk : none ∈ es.keys
  · simp [hk]
  · rw [if_neg hk, bind_eq_error_iff]
    simp [hk, pure, Except.pure]

theorem addEntry_eq_error_iff :
    (ofEntries es).addEntry x = .error e ↔ ItemOffence (fun k => k ∈ es.keys) x e := by
  constructor
  · intro h
    cases hkey : x.1.int? with
    | none =>
      rw [addEntry_unkeyed _ hkey] at h
      cases h
      exact .unkeyed hkey
    | some n =>
      by_cases hlevel : n = securityLevelClaim
      · subst hlevel
        rcases (addEntry_level_eq_error_iff hkey).1 h with ⟨hk, rfl⟩ | ⟨hk, hread⟩
        · exact .repeatedLevel hkey hk
        · exact .unreadLevel hkey hk hread
      · by_cases hn : ∃ t : Tag, t.claim = n
        · obtain ⟨t, rfl⟩ := hn
          rw [addEntry_claim _ hkey] at h
          rcases add_eq_error_iff.1 h with ⟨hk, rfl⟩ | ⟨hk, hread⟩
          · exact .repeated hkey hk
          · exact .unread hkey hk hread
        · have hn := not_exists.1 hn
          rw [addEntry_unknown _ hkey hlevel hn] at h
          cases h
          exact .unknown hkey hlevel hn
  · intro h
    cases h with
    | unkeyed hkey => exact addEntry_unkeyed _ hkey
    | unknown hkey hlevel hn => exact addEntry_unknown _ hkey hlevel hn
    | repeatedLevel hkey hk => exact (addEntry_level_eq_error_iff hkey).2 (.inl ⟨hk, rfl⟩)
    | unreadLevel hkey hk hread => exact (addEntry_level_eq_error_iff hkey).2 (.inr ⟨hk, hread⟩)
    | repeated hkey hk => exact (addEntry_claim _ hkey).trans (add_eq_error_iff.2 (.inl ⟨hk, rfl⟩))
    | unread hkey hk hread =>
      exact (addEntry_claim _ hkey).trans (add_eq_error_iff.2 (.inr ⟨hk, hread⟩))

end

end Partial

/-- What is needed of a form: reading an entry, with or without others before it. -/
structure EntryForm.IsReadBy {β : Type} (form : EntryForm β) (read : β → Option PropertyEntry)
    (step : Partial → β → Decoded Partial) : Prop where
  gives : ∀ b e, form.Gives b e ↔ read b = some e
  about : ∀ b e, form.Gives b e → ∀ k, form.IsAbout b k ↔ k = e.1
  flag : ∀ b t, t.kind = .flag → form.IsFramed b → form.IsAbout b (some t) →
    ∃ x, form.Gives b (.property t x)
  taken : ∀ es b, (step (Partial.ofEntries es) b).toOption =
    (read b).bind fun e =>
      if (es.dlookup e.1).isSome then none else some (Partial.ofEntries (es ++ [e]))
  refused : ∀ es b e, step (Partial.ofEntries es) b = .error e ↔
    form.Offends (fun k => k ∈ es.keys) b e

section

variable {β : Type} {form : EntryForm β} {read : β → Option PropertyEntry}
    {step : Partial → β → Decoded Partial}
  (h : form.IsReadBy read step)
include h

theorem EntryForm.IsReadBy.mem_keys_iff {bs : List β} {es : List PropertyEntry}
    (hread : bs.mapM read = some es) (k : Option Tag) :
    k ∈ es.keys ↔ ∃ b ∈ bs, form.IsAbout b k := by
  obtain ⟨hall, rfl⟩ := Entries.mapM_eq_some_iff.1 hread
  simp only [List.keys, List.mem_map, List.mem_filterMap]
  constructor
  · rintro ⟨e, ⟨b, hb, he⟩, rfl⟩
    exact ⟨b, hb, (h.about b e ((h.gives b e).2 he) e.1).2 rfl⟩
  · rintro ⟨b, hb, hk⟩
    obtain ⟨e, he⟩ := Option.isSome_iff_exists.1 (hall b hb)
    exact ⟨e, ⟨b, hb, he⟩, ((h.about b e ((h.gives b e).2 he) k).1 hk).symm⟩

theorem EntryForm.IsReadBy.nodupKeys_iff {bs : List β} {es : List PropertyEntry}
    (hread : bs.mapM read = some es) :
    es.NodupKeys ↔ bs.Pairwise fun b b' => ∀ k, form.IsAbout b k → ¬ form.IsAbout b' k := by
  rw [Entries.nodupKeys_iff hread]
  obtain ⟨hall, rfl⟩ := Entries.mapM_eq_some_iff.1 hread
  refine List.Pairwise.iff_of_mem fun {b b'} hb hb' => ?_
  obtain ⟨e, he⟩ := Option.isSome_iff_exists.1 (hall b hb)
  obtain ⟨e', he'⟩ := Option.isSome_iff_exists.1 (hall b' hb')
  have habout := h.about b e ((h.gives b e).2 he)
  have habout' := h.about b' e' ((h.gives b' e').2 he')
  simp [he, he', habout, habout']

/-- What is taken, and what has been read by then. -/
theorem EntryForm.IsReadBy.foldlM_eq_ok_iff {bs : List β} {p : Partial} :
    bs.foldlM step {} = .ok p ↔
      ∃ es, bs.mapM read = some es ∧ es.NodupKeys ∧ Partial.ofEntries es = p := by
  change bs.foldlM step (Partial.ofEntries []) = .ok p ↔ _
  rw [← toOption_eq_some_iff, Entries.toOption_foldlM h.taken bs, Option.bind_eq_some_iff]
  simp

variable {decode : List β → Decoded AuthorizationList}
  (hdecode : ∀ bs, decode bs = bs.foldlM step {} >>= fun p => pure p.list)
include hdecode

theorem EntryForm.IsReadBy.decode_eq_ok_iff {bs : List β} {l : AuthorizationList} :
    decode bs = .ok l ↔ ∃ es, bs.mapM read = some es ∧ es.NodupKeys ∧ ofEntries es = l := by
  rw [hdecode, bind_eq_ok_iff]
  simp only [h.foldlM_eq_ok_iff]
  constructor
  · rintro ⟨_, ⟨es, hread, hn, rfl⟩, hl⟩
    exact ⟨es, hread, hn, Except.ok.inj hl⟩
  · rintro ⟨es, hread, hn, rfl⟩
    exact ⟨_, ⟨es, hread, hn, rfl⟩, rfl⟩

theorem EntryForm.IsReadBy.succeeds (bs : List β) : (∃ l, decode bs = .ok l) ↔
    (∀ b ∈ bs, ∃ e, form.Gives b e) ∧ bs.Pairwise fun b b' => ∀ k, form.IsAbout b k →
      ¬ form.IsAbout b' k := by
  simp only [h.decode_eq_ok_iff hdecode, h.gives]
  constructor
  · rintro ⟨l, es, hread, hn, -⟩
    refine ⟨fun b hb => ?_, (h.nodupKeys_iff hread).1 hn⟩
    exact Option.isSome_iff_exists.1 ((Entries.mapM_eq_some_iff.1 hread).1 b hb)
  · rintro ⟨hall, hn⟩
    have hread : bs.mapM read = some (bs.filterMap read) :=
      Entries.mapM_eq_some_iff.2 ⟨fun b hb => Option.isSome_iff_exists.2 (hall b hb), rfl⟩
    exact ⟨_, _, hread, (h.nodupKeys_iff hread).2 hn, rfl⟩

/-- The entries before the one that is refused are taken, and it is refused for what they are
about. -/
theorem EntryForm.IsReadBy.fails (bs : List β) (e : DecodeError) : decode bs = .error e ↔
    ∃ before b after, bs = before ++ b :: after ∧ (∃ l, decode before = .ok l) ∧
      form.Offends (fun k => ∃ b' ∈ before, form.IsAbout b' k) b e := by
  have hseen : ∀ {before : List β} {es : List PropertyEntry}, before.mapM read = some es →
      (fun k => k ∈ es.keys) = fun k => ∃ b' ∈ before, form.IsAbout b' k :=
    fun hread => funext fun k => propext (h.mem_keys_iff hread k)
  have hfold : decode bs = .error e ↔ bs.foldlM step {} = .error e := by
    rw [hdecode, bind_eq_error_iff]
    simp [pure, Except.pure]
  rw [hfold, foldlM_eq_error_iff]
  constructor
  · rintro ⟨before, b, after, p, rfl, hbefore, hb⟩
    obtain ⟨es, hread, hn, rfl⟩ := h.foldlM_eq_ok_iff.1 hbefore
    rw [h.refused, hseen hread] at hb
    exact ⟨before, b, after, rfl, ⟨_, (h.decode_eq_ok_iff hdecode).2 ⟨es, hread, hn, rfl⟩⟩, hb⟩
  · rintro ⟨before, b, after, rfl, ⟨l, hl⟩, hb⟩
    obtain ⟨es, hread, hn, rfl⟩ := (h.decode_eq_ok_iff hdecode).1 hl
    rw [← hseen hread, ← h.refused] at hb
    exact ⟨before, b, after, _, rfl, h.foldlM_eq_ok_iff.2 ⟨es, hread, hn, rfl⟩, hb⟩

theorem EntryForm.IsReadBy.isAllowList : IsAllowList form decode := by
  refine ⟨h.succeeds hdecode, fun bs l hl k x => ?_, fun bs l hl k => ?_, h.flag,
    fun bs bs' hperm => ?_, h.fails hdecode⟩
  · obtain ⟨es, hread, hn, rfl⟩ := (h.decode_eq_ok_iff hdecode).1 hl
    simp only [holds?_ofEntries, h.gives]
    exact Entries.dlookup_eq_some_iff hread hn
  · obtain ⟨es, hread, hn, rfl⟩ := (h.decode_eq_ok_iff hdecode).1 hl
    rw [holds?_ofEntries, List.dlookup_isSome, h.mem_keys_iff hread]
  · rw [hdecode, hdecode, Partial.toOption_list h.taken, Partial.toOption_list h.taken]
    exact Entries.bind_mapM_eq_of_perm (fun _ _ => ofDistinct?_eq_of_perm) hperm

end

theorem eq_of_number_eq {t t' : Tag} (h : t.number = t'.number) : t = t' :=
  Option.some.inj (by rw [← Tag.ofNumber?_number t, h, Tag.ofNumber?_number])

theorem read?_eq_some_iff {α : Type} [PropertyValue α] {t : Tag} {v : α} {e : PropertyEntry} :
    PropertyEntry.read? t v = some e ↔ ∃ y, t.kind.read t.label v = .ok y ∧ e = .property t y := by
  simp only [PropertyEntry.read?, Option.map_eq_some_iff, toOption_eq_some_iff]
  exact exists_congr fun y => and_congr_right fun _ => eq_comm

theorem read_of_flag {α : Type} [PropertyValue α] {t : Tag} (ht : t.kind = .flag) (v : α) :
    ∃ y, t.kind.read t.label v = .ok y := by
  rw [ht]
  exact ⟨(), rfl⟩

theorem objectEntries_isReadBy :
    objectEntries.IsReadBy PropertyEntry.ofObject? Partial.addObject where
  gives x e := by
    simp only [objectEntries, Wraps, PropertyEntry.ofObject?, Option.bind_eq_some_iff,
      toOption_eq_some_iff, Ber.Object.ofOctets, readWhole_eq_ok_iff, read?_eq_some_iff]
    constructor
    · rintro ⟨t, v, y, ⟨content, hx, hv⟩, hread, rfl⟩
      exact ⟨_, hx, t, Tag.ofNumber?_number t, v, hv, y, hread, rfl⟩
    · rintro ⟨⟨n, content⟩, hx, t, hn, v, hv, y, hread, rfl⟩
      obtain rfl := Tag.number_of_ofNumber? hn
      exact ⟨t, v, y, ⟨content, hx, hv⟩, hread, rfl⟩
  about x e := by
    rintro ⟨t, v, y, ⟨content, hx, hv⟩, -, rfl⟩ k
    constructor
    · rintro ⟨t', content', rfl, hx'⟩
      rw [eq_of_number_eq (Prod.mk.inj (Option.some.inj (hx'.symm.trans hx))).1]
      rfl
    · rintro rfl
      exact ⟨t, content, rfl, hx⟩
  flag x t ht := by
    rintro ⟨n, content, v, hx, hv⟩ ⟨t', content', hk, hx'⟩
    cases hk
    cases hx.symm.trans hx'
    obtain ⟨y, hread⟩ := read_of_flag ht v
    exact ⟨y, t, v, y, ⟨content, hx, hv⟩, hread, rfl⟩
  taken := Partial.toOption_addObject
  refused _ _ _ := Partial.addObject_eq_error_iff

theorem itemEntries_isReadBy : itemEntries.IsReadBy PropertyEntry.ofItem? Partial.addEntry where
  gives x e := by
    simp only [itemEntries, PropertyEntry.ofItem?, Option.bind_eq_some_iff]
    constructor
    · rintro (⟨l, hkey, hl, rfl⟩ | ⟨t, y, hkey, hread, rfl⟩)
      · refine ⟨_, hkey, ?_⟩
        rw [if_pos rfl, hl]
        rfl
      · refine ⟨_, hkey, ?_⟩
        rw [if_neg (claim_ne_securityLevelClaim t), Tag.ofClaim?_claim]
        exact read?_eq_some_iff.2 ⟨y, hread, rfl⟩
    · rintro ⟨n, hkey, h⟩
      split at h
      · next hn =>
        subst hn
        obtain ⟨l, hl, rfl⟩ := Option.map_eq_some_iff.1 h
        exact .inl ⟨l, hkey, toOption_eq_some_iff.1 hl, rfl⟩
      · obtain ⟨t, ht, h⟩ := Option.bind_eq_some_iff.1 h
        obtain ⟨y, hread, rfl⟩ := read?_eq_some_iff.1 h
        obtain rfl := Tag.claim_of_ofClaim? ht
        exact .inr ⟨t, y, hkey, hread, rfl⟩
  about x e := by
    intro hgives k
    have hkey : x.1.int? = some (claimOf e.1) := by
      rcases hgives with ⟨l, hkey, -, rfl⟩ | ⟨t, y, hkey, -, rfl⟩
      · exact hkey
      · exact hkey
    change x.1.int? = some (claimOf k) ↔ _
    rw [hkey, Option.some_inj, claimOf_injective.eq_iff, eq_comm]
  flag x t ht := by
    rintro ⟨n, hn⟩ hkey
    obtain ⟨y, hread⟩ := read_of_flag ht x.2
    exact ⟨y, .inr ⟨t, y, hkey, hread, rfl⟩⟩
  taken := Partial.toOption_addEntry
  refused _ _ _ := Partial.addEntry_eq_error_iff

/-- Both forms of a list admit only what they know. -/
theorem decoding_isAllowList : IsAllowList objectEntries (fun xs => ofObject (.sequence xs)) ∧
    IsAllowList itemEntries fun es => ofItem (.map es) :=
  ⟨objectEntries_isReadBy.isAllowList fun _ => rfl, itemEntries_isReadBy.isAllowList fun _ => rfl⟩

end AuthorizationList

end AttestedKey
