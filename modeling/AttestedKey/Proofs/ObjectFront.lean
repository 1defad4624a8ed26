import AttestedKey.Proofs.ElementPrefix

/-! The reader of objects goes by the octets of the object and by nothing behind them
(`isLocal_object`), however deep the object is nested and whether its lengths are definite or not.
Contents of indefinite length are walked over where they are kept raw, and taken apart where they
are those of a SEQUENCE or SET; both ends are an object that ends contents, which shows in its
header. -/

namespace AttestedKey

namespace Ber

open Reader (IsLocal isLocal_some isLocal_none isLocal_known isLocal_ite isLocal_split?)

/-! ### Raw contents -/

def walking (walk : Octets → Option (Octets × Bool)) : Reader Bool :=
  fun bs => (walk bs).map Prod.swap

theorem walking_eq_some_iff {walk : Octets → Option (Octets × Bool)} {bs rest : Octets}
    {ended : Bool} : walking walk bs = some (ended, rest) ↔ walk bs = some (rest, ended) := by
  rw [walking, Option.map_eq_some_iff]
  constructor
  · rintro ⟨p, hwalk, hswap⟩
    rw [hwalk, Prod.swap_eq_iff_eq_swap.1 hswap, Prod.swap_prod_mk]
  · exact fun h => ⟨_, h, rfl⟩

/-- The fuel is as much as there are octets, and it is enough if it is more than the octets that
are taken. -/
theorem skipItems_front {item : Octets → Option (Octets × Bool)} (hitem : IsLocal (walking item))
    (hnil : item [] = none) {fuel : Nat} {bs rest : Octets}
    (h : skipItems item fuel bs = some rest) :
    ∃ front, bs = front ++ rest ∧ ∀ more fuel', front.length < fuel' →
      skipItems item fuel' (front ++ more) = some more := by
  have hnone : walking item [] = none := by rw [walking, hnil, Option.map_none]
  induction fuel generalizing bs with
  | zero => cases h
  | succ fuel ih =>
    obtain ⟨⟨mid, ended⟩, hread, h⟩ := Option.bind_eq_some_iff.1 h
    obtain ⟨first, rfl, hfirst⟩ := hitem _ _ _ (walking_eq_some_iff.2 hread)
    have hpos : 0 < first.length := List.length_pos_iff.2 (Reader.ne_nil_of_front hnone hfirst)
    simp only [walking_eq_some_iff] at hfirst
    cases ended with
    | true =>
      cases h
      refine ⟨first, rfl, fun more fuel' hfuel => ?_⟩
      obtain ⟨fuel', rfl⟩ := Nat.exists_eq_succ_of_ne_zero (Nat.ne_zero_of_lt hfuel)
      rw [skipItems, hfirst]
      rfl
    | false =>
      obtain ⟨front, rfl, hfront⟩ := ih h
      refine ⟨first ++ front, by rw [List.append_assoc], fun more fuel' hfuel => ?_⟩
      obtain ⟨fuel', rfl⟩ := Nat.exists_eq_succ_of_ne_zero (Nat.ne_zero_of_lt hfuel)
      rw [List.length_append] at hfuel
      rw [List.append_assoc, skipItems, hfirst]
      exact hfront more fuel' (by omega)

/-- One object is walked over. -/
theorem isLocal_walking_object {depth : Nat} (hskip : ∀ h, IsLocal (walking (skip depth h))) :
    IsLocal (walking fun bs => do
      let (h, rest) ← header bs
      skip depth h rest) := by
  have hwalk : (walking fun bs => do
      let (h, rest) ← header bs
      skip depth h rest) = fun bs => (header bs).bind fun p => walking (skip depth p.1) p.2 := by
    funext bs
    exact Option.map_bind ..
  rw [hwalk]
  exact isLocal_header.bind hskip

theorem isLocal_skip (depth : Nat) (h : Header) : IsLocal (walking (skip depth h)) := by
  induction depth generalizing h with
  | zero => exact isLocal_none
  | succ depth ih =>
    intro bs ended rest hread
    rw [walking_eq_some_iff, skip] at hread
    simp only [walking_eq_some_iff, skip]
    cases hlength : h.length with
    | some n =>
      simp only [hlength] at hread ⊢
      split at hread
      · next hends =>
        cases hread
        exact ⟨[], rfl, fun more => if_pos hends⟩
      · next hends =>
        obtain ⟨⟨inner, behind⟩, hsplit, hread⟩ := Option.map_eq_some_iff.1 hread
        cases hread
        obtain ⟨rfl, rfl⟩ := Octets.eq_append_of_split? hsplit
        exact ⟨inner, rfl, fun more => by rw [if_neg hends, Octets.split?_append]; rfl⟩
    | none =>
      simp only [hlength] at hread ⊢
      obtain ⟨behind, hskip, hread⟩ := Option.map_eq_some_iff.1 hread
      cases hread
      obtain ⟨front, rfl, hfront⟩ := skipItems_front (isLocal_walking_object ih) rfl hskip
      exact ⟨front, rfl, fun more => by rw [hfront more _ (by rw [List.length_append]; omega)]; rfl⟩

/-- The raw content is cut out of what is walked over. -/
theorem isLocal_content (depth : Nat) (h : Header) : IsLocal (content depth h) := by
  intro bs inner rest hread
  unfold content at hread ⊢
  cases hlength : h.length with
  | some n =>
    simp only [hlength] at hread ⊢
    split at hread
    · cases hread
    · next hdepth =>
      obtain ⟨rfl, rfl⟩ := Octets.eq_append_of_split? hread
      exact ⟨inner, rfl, fun more => by rw [if_neg hdepth, Octets.split?_append]⟩
  | none =>
    simp only [hlength] at hread ⊢
    obtain ⟨⟨behind, ended⟩, hskip, hread⟩ := Option.bind_eq_some_iff.1 hread
    cases hread
    obtain ⟨front, rfl, hfront⟩ := isLocal_skip depth h _ _ _ (walking_eq_some_iff.2 hskip)
    refine ⟨front, rfl,
      fun more => Option.bind_eq_some_iff.2 ⟨_, walking_eq_some_iff.1 (hfront more), ?_⟩⟩
    -- the cut is told by lengths, and both lengths have what follows in them
    have hcut : ∀ more : Octets,
        (front ++ more).take ((front ++ more).length - more.length - 2) =
          front.take (front.length - 2) := by
      intro more
      rw [List.length_append, Nat.add_sub_cancel, List.take_append_of_le_length (Nat.sub_le _ _)]
    change some ((front ++ more).take _, more) = some ((front ++ behind).take _, more)
    rw [hcut, hcut]

/-! ### Objects -/

theorem endOfContents_eq_some_iff {bs rest : Octets} :
    endOfContents bs = some rest ↔ ∃ h, header bs = some (h, rest) ∧ h.endsContents = true := by
  unfold endOfContents
  cases header bs with
  | none => simp
  | some p =>
    obtain ⟨h, behind⟩ := p
    by_cases hends : h.endsContents = true <;> simp [hends]

/-- The octets of an object begin with its header. -/
theorem delimits_endOfContents {item : Reader Object}
    (hheader : ∀ bs, (item bs).isSome → (header bs).isSome) :
    Reader.Delimits endOfContents item where
  marked bs rest hmark := by
    obtain ⟨h, hread, hends⟩ := endOfContents_eq_some_iff.1 hmark
    obtain ⟨front, rfl, hfront⟩ := isLocal_header _ _ _ hread
    exact ⟨front, rfl, fun more => endOfContents_eq_some_iff.2 ⟨h, hfront more, hends⟩⟩
  unmarked front x rest hfront hmark more := by
    have hself : (header front).isSome := by
      have hread := hfront []
      rw [List.append_nil] at hread
      exact hheader front (by rw [hread]; rfl)
    obtain ⟨⟨h, behind⟩, hread⟩ := Option.isSome_iff_exists.1 hself
    obtain ⟨lead, rfl, hlead⟩ := isLocal_header _ _ _ hread
    have hends : ∀ behind more, endOfContents (lead ++ behind ++ more) =
        if h.endsContents then some (behind ++ more) else none := by
      intro behind more
      rw [List.append_assoc, endOfContents, hlead]
    rw [hends] at hmark ⊢
    split at hmark
    · cases hmark
    · next hnot => exact if_neg hnot

theorem isSome_header_of_object {depth : Nat} {bs : Octets} (h : (object depth bs).isSome) :
    (header bs).isSome := by
  cases depth with
  | zero => cases h
  | succ depth =>
    obtain ⟨p, h⟩ := Option.isSome_iff_exists.1 h
    obtain ⟨q, hq, -⟩ := Option.bind_eq_some_iff.1 h
    rw [hq]
    rfl

theorem isLocal_items {item : Reader Object} (hitem : IsLocal item)
    (hheader : ∀ bs, (item bs).isSome → (header bs).isSome) (len : Option Nat) :
    IsLocal (items item len) := by
  cases len with
  | some n => exact (isLocal_split? n).bind fun inner => isLocal_known fun xs _ => isLocal_some xs
  | none =>
    have hnil : item [] = none := Option.not_isSome_iff_eq_none.1 fun h => by cases hheader [] h
    exact Reader.isLocal_untilMark hitem hnil (delimits_endOfContents hheader)

def afterHeader (depth : Nat) (h : Header) : Reader Object := fun bs =>
  if h.tagClass ≠ .universal then
    (content (depth + 1) h bs).bind fun p => some (.tagged h.tagClass h.tag p.1, p.2)
  else if h.tag = 16 ∨ h.tag = 17 then
    if h.constructed then
      (items (object depth) h.length bs).bind fun p =>
        some (if h.tag = 16 then .sequence p.1 else .set p.1, p.2)
    else none
  else (content (depth + 1) h bs).bind fun p => (leaf? h p.1).bind fun x => some (x, p.2)

theorem object_succ (depth : Nat) :
    object (depth + 1) = fun bs => (header bs).bind fun p => afterHeader depth p.1 p.2 := rfl

theorem isLocal_afterHeader {depth : Nat} (hobject : IsLocal (object depth)) (h : Header) :
    IsLocal (afterHeader depth h) := by
  have hitems := isLocal_items hobject (fun _ => isSome_header_of_object) h.length
  refine isLocal_ite ?_ (isLocal_ite (isLocal_ite ?_ isLocal_none) ?_)
  · exact (isLocal_content (depth + 1) h).bind fun inner =>
      isLocal_some (Object.tagged h.tagClass h.tag inner)
  · exact hitems.bind fun xs =>
      isLocal_some (if h.tag = 16 then Object.sequence xs else Object.set xs)
  · exact (isLocal_content (depth + 1) h).bind fun inner => isLocal_known fun x _ => isLocal_some x

theorem isLocal_object (depth : Nat) : IsLocal (object depth) := by
  induction depth with
  | zero => exact isLocal_none
  | succ depth ih =>
    rw [object_succ]
    exact isLocal_header.bind (isLocal_afterHeader ih)

end Ber

end AttestedKey
