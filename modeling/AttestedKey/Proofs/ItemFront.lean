import AttestedKey.Proofs.ElementPrefix
import AttestedKey.Proofs.ItemReading

/-! A reader of data items goes by the octets of the item and by nothing behind them
(`isLocal_item`), and one that may go deeper gives the same (`item_covers`), so an item that has
been read for itself can be read inside another one (`item_extends`). When octets are cut off
somewhere, the item at their front is read as before as long as all of it is left (`read_take`),
and nothing is read once a part of it is gone (`read_take_eq_none`). -/

namespace AttestedKey

namespace Reader

variable {α : Type} {item : Reader α}

theorem isLocal_timesOnto (hitem : IsLocal item) (n : Nat) (found : List α) :
    IsLocal (timesOnto item n found) := by
  induction n generalizing found with
  | zero => exact isLocal_some _
  | succ n ih =>
    have hstep : timesOnto item (n + 1) found =
        fun bs => (item bs).bind fun p => timesOnto item n (p.1 :: found) p.2 := by
      funext bs
      rw [timesOnto]
      cases item bs <;> rfl
    rw [hstep]
    exact hitem.bind fun x => ih (x :: found)

theorem Covers.timesOnto {item' : Reader α} (h : Covers item item') (n : Nat) (found : List α) :
    Covers (timesOnto item n found) (timesOnto item' n found) := by
  intro bs xs rest hread
  induction n generalizing found bs with
  | zero => exact hread
  | succ n ih =>
    rw [Reader.timesOnto] at hread ⊢
    cases hitem : item bs with
    | none => simp [hitem] at hread
    | some p =>
      simp only [hitem] at hread
      simp only [h _ _ _ hitem]
      exact ih _ _ hread

theorem Covers.untilWithin {item' : Reader α} (h : Covers item item')
    (mark : Octets → Option Octets) (fuel : Nat) (found : List α) :
    Covers (untilWithin mark item fuel found) (untilWithin mark item' fuel found) := by
  intro bs xs rest hread
  induction fuel generalizing found bs with
  | zero => cases hread
  | succ fuel ih =>
    rw [Reader.untilWithin] at hread ⊢
    cases hmark : mark bs with
    | some after => simpa only [hmark] using hread
    | none =>
      cases hitem : item bs with
      | none => simp [hmark, hitem] at hread
      | some p =>
        simp only [hmark, hitem] at hread
        simp only [h _ _ _ hitem]
        exact ih _ _ hread

theorem Covers.untilMark {item' : Reader α} (h : Covers item item')
    (mark : Octets → Option Octets) :
    Covers (untilMark mark item) (untilMark mark item') := fun bs => h.untilWithin mark _ [] bs

/-- What follows is left as it is. -/
theorem IsLocal.append (hitem : IsLocal item) {bs rest : Octets} {x : α}
    (h : item bs = some (x, rest)) (more : Octets) :
    item (bs ++ more) = some (x, rest ++ more) := by
  obtain ⟨front, rfl, hfront⟩ := hitem _ _ _ h
  rw [List.append_assoc]
  exact hfront _

end Reader

namespace Cbor

open Reader
  (Covers IsLocal isLocal_some isLocal_none isLocal_known isLocal_ite isLocal_split?
  isLocal_of_cons)

theorem breakMark_eq_some {bs rest : Octets} (h : breakMark bs = some rest) :
    bs = 0xFF :: rest := by
  unfold breakMark at h
  split at h
  · cases h
    rfl
  · cases h

theorem breakMark_append {bs rest : Octets} (h : breakMark bs = some rest) (more : Octets) :
    breakMark (bs ++ more) = some (rest ++ more) := by
  unfold breakMark at h
  split at h
  · cases h
    rfl
  · cases h

theorem breakMark_append_eq_none {bs : Octets} (hne : bs ≠ []) (h : breakMark bs = none)
    (more : Octets) : breakMark (bs ++ more) = none := by
  obtain ⟨b, bs, rfl⟩ := List.exists_cons_of_ne_nil hne
  unfold breakMark at h ⊢
  split at h
  · cases h
  · next hb =>
    split
    · next heq => exact absurd (congrArg (· :: bs) (List.cons.inj heq).1) (hb bs)
    · rfl

/-- Whether a break stands first shows in any octets at the front. -/
theorem breakMark_front {front rest : Octets} (hne : front ≠ [])
    (h : breakMark (front ++ rest) = none) (more : Octets) : breakMark (front ++ more) = none := by
  cases hfront : breakMark front with
  | none => exact breakMark_append_eq_none hne hfront more
  | some behind =>
    rw [breakMark_append hfront] at h
    cases h

theorem isLocal_head : IsLocal head := by
  refine isLocal_of_cons rfl (fun b bs => by rw [head]) fun b => ?_
  refine isLocal_ite (isLocal_some _) (isLocal_ite ?_ (isLocal_ite (isLocal_some _) isLocal_none))
  exact (isLocal_split? _).bind fun digits =>
    isLocal_some (⟨b.toNat / 32, 1 <<< (b.toNat % 32 - 24), some (Octets.toNat digits)⟩ : Head)

theorem head_ne_nil {front : Octets} {hd : Head}
    (hfront : ∀ more, head (front ++ more) = some (hd, more)) : front ≠ [] :=
  Reader.ne_nil_of_front rfl hfront

/-- The fuel is as much as there are octets, so where fewer are left there is less of it. It is
enough if it is more than the octets that are taken. -/
theorem piecesWithin_front {major fuel opened : Nat} {found parts : List Octets} {bs rest : Octets}
    (h : piecesWithin major fuel opened found bs = some (parts, rest)) :
    ∃ front, bs = front ++ rest ∧ ∀ more fuel', front.length < fuel' →
      piecesWithin major fuel' opened found (front ++ more) = some (parts, more) := by
  induction fuel generalizing opened found bs with
  | zero => cases h
  | succ fuel ih =>
    rw [piecesWithin] at h
    cases hmark : breakMark bs with
    | some after =>
      obtain rfl := breakMark_eq_some hmark
      simp only [hmark] at h
      split at h
      · next hlast =>
        cases h
        refine ⟨[0xFF], rfl, fun more fuel' hfuel => ?_⟩
        obtain ⟨fuel', rfl⟩ := Nat.exists_eq_succ_of_ne_zero (Nat.ne_zero_of_lt hfuel)
        exact if_pos hlast
      · next hlast =>
        obtain ⟨front, rfl, hfront⟩ := ih h
        refine ⟨0xFF :: front, rfl, fun more fuel' hfuel => ?_⟩
        obtain ⟨fuel', rfl⟩ := Nat.exists_eq_succ_of_ne_zero (Nat.ne_zero_of_lt hfuel)
        exact (if_neg hlast).trans (hfront more fuel' (by simpa using hfuel))
    | none =>
      simp only [hmark] at h
      obtain ⟨⟨hd, mid⟩, hhead, hbody⟩ := Option.bind_eq_some_iff.1 h
      obtain ⟨lead, rfl, hlead⟩ := isLocal_head _ _ _ hhead
      have hne : lead ≠ [] := head_ne_nil hlead
      have hpos : 0 < lead.length := List.length_pos_iff.2 hne
      dsimp only at hbody
      split at hbody
      · cases hbody
      next hmajor =>
      split at hbody
      · next hopen =>
        obtain ⟨front, rfl, hfront⟩ := ih hbody
        refine ⟨lead ++ front, by rw [List.append_assoc], fun more fuel' hfuel => ?_⟩
        obtain ⟨fuel', rfl⟩ := Nat.exists_eq_succ_of_ne_zero (Nat.ne_zero_of_lt hfuel)
        rw [List.length_append] at hfuel
        rw [List.append_assoc, piecesWithin, breakMark_front hne hmark]
        simp only [hlead, Option.bind_eq_bind, Option.bind_some, if_neg hmajor, hopen]
        exact hfront more fuel' (by omega)
      · next n hn =>
        obtain ⟨⟨piece, after⟩, hsplit, hafter⟩ := Option.bind_eq_some_iff.1 hbody
        obtain ⟨rfl, rfl⟩ := Octets.eq_append_of_split? hsplit
        obtain ⟨front, rfl, hfront⟩ := ih hafter
        refine ⟨lead ++ (piece ++ front), by simp only [List.append_assoc],
          fun more fuel' hfuel => ?_⟩
        obtain ⟨fuel', rfl⟩ := Nat.exists_eq_succ_of_ne_zero (Nat.ne_zero_of_lt hfuel)
        rw [List.length_append, List.length_append] at hfuel
        rw [List.append_assoc, List.append_assoc, piecesWithin, breakMark_front hne hmark]
        simp only [hlead, Option.bind_eq_bind, Option.bind_some, if_neg hmajor, hn,
          Octets.split?_append]
        exact hfront more fuel' (by omega)

theorem isLocal_pieces (major : Nat) (argument : Option Nat) : IsLocal (pieces major argument) := by
  cases argument with
  | some n => exact (isLocal_split? n).bind fun piece => isLocal_some [piece]
  | none =>
    intro bs parts rest h
    obtain ⟨front, rfl, hfront⟩ := piecesWithin_front h
    exact ⟨front, rfl, fun more => hfront more _ (by rw [List.length_append]; omega)⟩

theorem delimits_breakMark {α : Type} {reader : Reader α} (hnil : reader [] = none) :
    Reader.Delimits breakMark reader where
  marked _ _ h := ⟨[0xFF], breakMark_eq_some h, fun _ => rfl⟩
  unmarked _ _ _ hfront := breakMark_front (Reader.ne_nil_of_front hnil hfront)

section

variable {reader : Reader Item} (hreader : IsLocal reader)
include hreader

theorem isLocal_entry : IsLocal (entry reader) :=
  hreader.bind fun key => hreader.bind fun value => isLocal_some (key, value)

variable (hnil : reader [] = none)
include hnil

theorem isLocal_several (argument : Option Nat) : IsLocal (several reader argument) := by
  cases argument with
  | none => exact Reader.isLocal_untilMark hreader hnil (delimits_breakMark hnil)
  | some n => exact Reader.isLocal_timesOnto hreader n []

theorem isLocal_entries (argument : Option Nat) : IsLocal (entries reader argument) := by
  cases argument with
  | none =>
    have hentry : entry reader [] = none := by simp [entry, hnil]
    exact Reader.isLocal_untilMark (isLocal_entry hreader) hentry (delimits_breakMark hentry)
  | some n => exact Reader.isLocal_timesOnto (isLocal_entry hreader) n []

end

theorem isLocal_shortBytes : IsLocal shortBytes := by
  have hcontent : ∀ hd : Head, IsLocal fun bs =>
      hd.argument.bind fun n => if hd.major = 2 ∧ n ≤ 16 then Octets.split? n bs else none := by
    intro hd
    cases hd.argument with
    | none => exact isLocal_none
    | some n => exact isLocal_ite (isLocal_split? n) isLocal_none
  exact isLocal_head.bind hcontent

/-- Whether a short byte string starts here shows as soon as a head can be read. -/
theorem startsShortBytes_append {bs : Octets} (h : (head bs).isSome) (more : Octets) :
    startsShortBytes (bs ++ more) = startsShortBytes bs := by
  obtain ⟨⟨hd, mid⟩, hhead⟩ := Option.isSome_iff_exists.1 h
  unfold startsShortBytes
  rw [isLocal_head.append hhead more, hhead]
  split
  · next heq =>
    cases heq
    rfl
  · next hother =>
    split
    · next heq =>
      cases heq
      exact absurd rfl (hother _ _ _)
    · rfl

/-- Whether a short byte string starts here is told by its head. -/
theorem startsShortBytes_front {front rest : Octets} (h : ∀ more, (head (front ++ more)).isSome)
    (more : Octets) : startsShortBytes (front ++ more) = startsShortBytes (front ++ rest) := by
  have hfront : (head front).isSome := by simpa using h []
  rw [startsShortBytes_append hfront, startsShortBytes_append hfront]

/-- A look at the head ahead of a reader that begins with one. -/
theorem isLocal_ite_startsShortBytes {p : Prop} [Decidable p] {short long : Reader Item}
    (hshort : IsLocal short) (hlong : IsLocal long)
    (hheadShort : ∀ bs, (short bs).isSome → (head bs).isSome)
    (hheadLong : ∀ bs, (long bs).isSome → (head bs).isSome) :
    IsLocal fun bs => if p ∧ startsShortBytes bs then short bs else long bs := by
  intro bs x rest h
  dsimp only at h ⊢
  split at h
  · next hstarts =>
    obtain ⟨front, rfl, hfront⟩ := hshort _ _ _ h
    refine ⟨front, rfl, fun more => ?_⟩
    rw [startsShortBytes_front (fun more => hheadShort _ (by rw [hfront more]; rfl)) more,
      if_pos hstarts, hfront]
  · next hstarts =>
    obtain ⟨front, rfl, hfront⟩ := hlong _ _ _ h
    refine ⟨front, rfl, fun more => ?_⟩
    rw [startsShortBytes_front (fun more => hheadLong _ (by rw [hfront more]; rfl)) more,
      if_neg hstarts, hfront]

def bignumFront (negative : Bool) : Reader Item := fun bs =>
  (shortBytes bs).bind fun p => (bignum negative (Octets.toNat p.1)).bind fun x => some (x, p.2)

def taggedFront (inner : Option (Reader Item)) (number : Nat) : Reader Item := fun bs =>
  inner.bind fun reader => (reader bs).bind fun p => some (.tagged (UInt64.ofNat number) p.1, p.2)

def afterHead (inner : Option (Reader Item)) (h : Head) : Reader Item :=
  match h.major with
  | 0 => fun bs => h.argument.bind fun n => some (.unsigned (UInt64.ofNat n), bs)
  | 1 => fun bs => h.argument.bind fun n => some (.negative (UInt64.ofNat n), bs)
  | 2 => fun bs => (pieces 2 h.argument bs).bind fun p => some (.bytes p.1.flatten, p.2)
  | 3 => fun bs => (pieces 3 h.argument bs).bind fun p =>
      (p.1.mapM Utf8.decode?).bind fun texts => some (.text (String.join texts), p.2)
  | 4 => fun bs => inner.bind fun reader => (several reader h.argument bs).bind fun p =>
    some (.array p.1, p.2)
  | 5 => fun bs => inner.bind fun reader => (entries reader h.argument bs).bind fun p =>
    some (.map p.1, p.2)
  | 6 => fun bs => h.argument.bind fun number =>
      if (number = 2 ∨ number = 3) ∧ startsShortBytes bs then bignumFront (number = 3) bs
      else taggedFront inner number bs
  | _ => fun bs => (simple h).bind fun x => some (x, bs)

theorem itemWith_eq (inner : Option (Reader Item)) :
    itemWith inner = fun bs => (head bs).bind fun p => afterHead inner p.1 p.2 := by
  funext bs
  rw [itemWith, Option.bind_eq_bind]
  congr 1
  funext p
  obtain ⟨⟨major, width, argument⟩, bs⟩ := p
  dsimp only [afterHead]
  split
  -- only the last case is not by computation: what it knows is that the type is none of the seven
  case h_8 => simp only [*]; rfl
  all_goals rfl

section

variable {inner : Option (Reader Item)}
  (hinner : ∀ reader, inner = some reader → IsLocal reader ∧ ∀ bs, (reader bs).isSome →
    (head bs).isSome)
include hinner

theorem isLocal_tag (number : Nat) : IsLocal fun bs =>
    if (number = 2 ∨ number = 3) ∧ startsShortBytes bs then bignumFront (number = 3) bs
    else taggedFront inner number bs := by
  refine isLocal_ite_startsShortBytes ?_ ?_ (fun bs h => ?_) fun bs h => ?_
  · have hnumber : ∀ digits : Octets, IsLocal fun bs =>
        (bignum (number = 3) (Octets.toNat digits)).bind fun x => some (x, bs) :=
      fun _ => isLocal_known fun x _ => isLocal_some x
    exact isLocal_shortBytes.bind hnumber
  · exact isLocal_known fun reader hreader => (hinner reader hreader).1.bind fun x => isLocal_some _
  · obtain ⟨p, h⟩ := Option.isSome_iff_exists.1 h
    obtain ⟨digits, hdigits, -⟩ := Option.bind_eq_some_iff.1 h
    obtain ⟨q, hq, -⟩ := Option.bind_eq_some_iff.1 hdigits
    rw [hq]
    rfl
  · obtain ⟨p, h⟩ := Option.isSome_iff_exists.1 h
    obtain ⟨reader, hreader, h⟩ := Option.bind_eq_some_iff.1 h
    obtain ⟨q, hq, -⟩ := Option.bind_eq_some_iff.1 h
    exact (hinner reader hreader).2 bs (by rw [hq]; rfl)

theorem isLocal_afterHead (h : Head) : IsLocal (afterHead inner h) := by
  have hnil : ∀ reader, inner = some reader → reader [] = none := by
    intro reader hreader
    exact Option.not_isSome_iff_eq_none.1 fun hs => by
      simpa [head] using (hinner reader hreader).2 [] hs
  unfold afterHead
  split
  · exact isLocal_known fun n _ => isLocal_some _
  · exact isLocal_known fun n _ => isLocal_some _
  · exact (isLocal_pieces 2 h.argument).bind fun parts => isLocal_some (Item.bytes parts.flatten)
  · have htext : ∀ parts : List Octets, IsLocal fun bs =>
        (parts.mapM Utf8.decode?).bind fun texts => some (Item.text (String.join texts), bs) :=
      fun _ => isLocal_known fun texts _ => isLocal_some (Item.text (String.join texts))
    exact (isLocal_pieces 3 h.argument).bind htext
  · refine isLocal_known fun reader hreader => ?_
    have hseveral := isLocal_several (hinner reader hreader).1 (hnil reader hreader) h.argument
    exact hseveral.bind fun xs => isLocal_some (Item.array xs)
  · refine isLocal_known fun reader hreader => ?_
    have hentries := isLocal_entries (hinner reader hreader).1 (hnil reader hreader) h.argument
    exact hentries.bind fun es => isLocal_some (Item.map es)
  · exact isLocal_known fun number _ => isLocal_tag hinner number
  · exact isLocal_known fun x _ => isLocal_some x

theorem isLocal_itemWith : IsLocal (itemWith inner) := by
  rw [itemWith_eq]
  exact isLocal_head.bind (isLocal_afterHead hinner)

end

theorem isSome_head_of_itemWith {inner : Option (Reader Item)} {bs : Octets}
    (h : (itemWith inner bs).isSome) : (head bs).isSome := by
  obtain ⟨p, h⟩ := Option.isSome_iff_exists.1 h
  obtain ⟨q, hq, -⟩ := Option.bind_eq_some_iff.1 h
  rw [hq]
  rfl

theorem isSome_head_of_item {depth : Nat} {bs : Octets} (h : (item depth bs).isSome) :
    (head bs).isSome := by
  cases depth with
  | zero => exact isSome_head_of_itemWith h
  | succ depth => exact isSome_head_of_itemWith h

theorem isLocal_item (depth : Nat) : IsLocal (item depth) := by
  induction depth with
  | zero => exact isLocal_itemWith fun reader h => (by cases h)
  | succ depth ih =>
    refine isLocal_itemWith fun reader h => ?_
    cases h
    exact ⟨ih, fun _ => isSome_head_of_item⟩

/-! ### Deeper readers -/

theorem entry_covers {reader reader' : Reader Item} (h : Covers reader reader') :
    Covers (entry reader) (entry reader') := by
  intro bs e rest hread
  obtain ⟨mid, hkey, hvalue⟩ := entry_eq_some hread
  simp [entry, h _ _ _ hkey, h _ _ _ hvalue]

theorem several_covers {reader reader' : Reader Item} (h : Covers reader reader')
    (argument : Option Nat) : Covers (several reader argument) (several reader' argument) := by
  cases argument with
  | none => exact h.untilMark breakMark
  | some n => exact h.timesOnto n []

theorem entries_covers {reader reader' : Reader Item} (h : Covers reader reader')
    (argument : Option Nat) : Covers (entries reader argument) (entries reader' argument) := by
  cases argument with
  | none => exact (entry_covers h).untilMark breakMark
  | some n => exact (entry_covers h).timesOnto n []

/-- Only arrays, maps and tags are read with the reader of what is inside. -/
theorem afterHead_covers {inner inner' : Option (Reader Item)}
    (hinner : ∀ reader, inner = some reader → ∃ reader', inner' = some reader' ∧
      Covers reader reader') (h : Head) :
    Covers (afterHead inner h) (afterHead inner' h) := by
  unfold afterHead
  split
  · exact fun _ _ _ hread => hread
  · exact fun _ _ _ hread => hread
  · exact fun _ _ _ hread => hread
  · exact fun _ _ _ hread => hread
  · intro bs x rest hread
    obtain ⟨reader, hreader, hread⟩ := Option.bind_eq_some_iff.1 hread
    obtain ⟨⟨xs, after⟩, hxs, hread⟩ := Option.bind_eq_some_iff.1 hread
    obtain ⟨reader', hreader', hcovers⟩ := hinner reader hreader
    exact Option.bind_eq_some_iff.2 ⟨reader', hreader', Option.bind_eq_some_iff.2
      ⟨_, several_covers hcovers _ _ _ _ hxs, hread⟩⟩
  · intro bs x rest hread
    obtain ⟨reader, hreader, hread⟩ := Option.bind_eq_some_iff.1 hread
    obtain ⟨⟨es, after⟩, hes, hread⟩ := Option.bind_eq_some_iff.1 hread
    obtain ⟨reader', hreader', hcovers⟩ := hinner reader hreader
    exact Option.bind_eq_some_iff.2 ⟨reader', hreader', Option.bind_eq_some_iff.2
      ⟨_, entries_covers hcovers _ _ _ _ hes, hread⟩⟩
  · intro bs x rest hread
    obtain ⟨number, hnumber, hread⟩ := Option.bind_eq_some_iff.1 hread
    refine Option.bind_eq_some_iff.2 ⟨number, hnumber, ?_⟩
    split at hread
    · next hshort => rwa [if_pos hshort]
    · next hshort =>
      rw [if_neg hshort]
      obtain ⟨reader, hreader, hread⟩ := Option.bind_eq_some_iff.1 hread
      obtain ⟨⟨y, after⟩, hy, hread⟩ := Option.bind_eq_some_iff.1 hread
      obtain ⟨reader', hreader', hcovers⟩ := hinner reader hreader
      exact Option.bind_eq_some_iff.2 ⟨reader', hreader',
        Option.bind_eq_some_iff.2 ⟨_, hcovers _ _ _ hy, hread⟩⟩
  · exact fun _ _ _ hread => hread

theorem itemWith_covers {inner inner' : Option (Reader Item)}
    (hinner : ∀ reader, inner = some reader → ∃ reader', inner' = some reader' ∧
      Covers reader reader') :
    Covers (itemWith inner) (itemWith inner') := by
  rw [itemWith_eq, itemWith_eq]
  intro bs x rest hread
  obtain ⟨p, hp, hread⟩ := Option.bind_eq_some_iff.1 hread
  exact Option.bind_eq_some_iff.2 ⟨p, hp, afterHead_covers hinner p.1 _ _ _ hread⟩

/-- What is read with some nesting allowed is read with more allowed. -/
theorem item_covers {depth depth' : Nat} (hle : depth ≤ depth') :
    Covers (item depth) (item depth') := by
  induction depth generalizing depth' with
  | zero =>
    cases depth' with
    | zero => exact itemWith_covers fun reader h => (by cases h)
    | succ depth' => exact itemWith_covers fun reader h => (by cases h)
  | succ depth ih =>
    obtain ⟨depth', rfl⟩ : ∃ n, depth' = n + 1 := ⟨depth' - 1, by omega⟩
    refine itemWith_covers fun reader h => ?_
    cases h
    exact ⟨_, rfl, ih (by omega)⟩

/-- And with anything behind. -/
theorem item_extends {depth depth' : Nat} (hle : depth ≤ depth') {bs rest : Octets} {x : Item}
    (h : item depth bs = some (x, rest)) (more : Octets) :
    item depth' (bs ++ more) = some (x, rest ++ more) :=
  item_covers hle _ _ _ ((isLocal_item depth).append h more)

/-! ### Octets that are cut off -/

variable {body rest : Octets} {x : Item} (h : read body = some (x, rest)) {limit : Nat}
include h

/-- Cut off behind the item, octets hold the item as before. -/
theorem read_take (hle : body.length - rest.length ≤ limit) :
    read (body.take limit) = some (x, rest.take (limit - (body.length - rest.length))) := by
  obtain ⟨front, rfl, hfront⟩ := isLocal_item maxDepth _ _ _ h
  rw [List.length_append, Nat.add_sub_cancel] at hle ⊢
  rw [List.take_append, List.take_of_length_le hle]
  exact hfront _

/-- Cut off inside the item, octets hold nothing that can be read. -/
theorem read_take_eq_none (hlt : limit < body.length - rest.length) :
    read (body.take limit) = none := by
  cases hread : read (body.take limit) with
  | none => rfl
  | some p =>
    obtain ⟨y, behind⟩ := p
    -- what is read of the front would be read of all
    have hall : read (body.take limit ++ body.drop limit) = some (y, behind ++ body.drop limit) :=
      (isLocal_item maxDepth).append hread _
    rw [List.take_append_drop] at hall
    cases h.symm.trans hall
    simp only [List.length_append, List.length_drop] at hlt
    omega

end Cbor

end AttestedKey
