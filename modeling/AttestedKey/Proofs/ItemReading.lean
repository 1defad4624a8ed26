import AttestedKey.Proofs.ItemEncoding

/-! What a reader of data items can give. Whatever it takes it takes off the front, so an item read
from some octets nests no deeper than the reader goes and holds nothing as long as the octets were
(`yields_item`). Hence it is known of every item that has been read what is read when it is written
(`read_write_of_read`). -/

namespace AttestedKey

namespace Reader

variable {α : Type} {item : Reader α}

/-- Whatever is read takes something off the front. -/
def Consumes (item : Reader α) : Prop :=
  ∀ bs x rest, item bs = some (x, rest) → rest.length < bs.length

inductive Run (item : Reader α) : Octets → List α → Octets → Prop
  | nil (bs : Octets) : Run item bs [] bs
  | cons {bs mid rest : Octets} {x : α} {xs : List α} :
      item bs = some (x, mid) → Run item mid xs rest → Run item bs (x :: xs) rest

theorem Run.length_add_le (hitem : Consumes item) {bs rest : Octets} {xs : List α}
    (h : Run item bs xs rest) : xs.length + rest.length ≤ bs.length := by
  induction h with
  | nil bs => simp
  | cons hread _ ih =>
    have := hitem _ _ _ hread
    rw [List.length_cons]
    omega

theorem Run.exists_of_mem (hitem : Consumes item) {bs rest : Octets} {xs : List α}
    (h : Run item bs xs rest) {x : α} (hx : x ∈ xs) :
    ∃ front mid, front.length ≤ bs.length ∧ item front = some (x, mid) := by
  induction h with
  | nil bs => simp at hx
  | @cons bs mid rest y ys hread _ ih =>
    rcases List.mem_cons.1 hx with rfl | hx
    · exact ⟨bs, mid, Nat.le_refl _, hread⟩
    · obtain ⟨front, mid', hle, hread'⟩ := ih hx
      exact ⟨front, mid', hle.trans (hitem _ _ _ hread).le, hread'⟩

theorem run_of_timesOnto {n : Nat} {found xs : List α} {bs rest : Octets}
    (h : timesOnto item n found bs = some (xs, rest)) :
    ∃ ys, xs = found.reverse ++ ys ∧ Run item bs ys rest := by
  induction n generalizing found bs with
  | zero =>
    cases h
    exact ⟨[], by simp, .nil _⟩
  | succ n ih =>
    rw [timesOnto] at h
    cases hitem : item bs with
    | none => simp [hitem] at h
    | some p =>
      obtain ⟨x, mid⟩ := p
      simp only [hitem] at h
      obtain ⟨ys, rfl, hrun⟩ := ih h
      exact ⟨x :: ys, by simp, .cons hitem hrun⟩

theorem run_of_untilWithin {mark : Octets → Option Octets} {fuel : Nat} {found xs : List α}
    {bs rest : Octets} (h : untilWithin mark item fuel found bs = some (xs, rest)) :
    ∃ ys mid, xs = found.reverse ++ ys ∧ Run item bs ys mid ∧ mark mid = some rest := by
  induction fuel generalizing found bs with
  | zero => cases h
  | succ fuel ih =>
    rw [untilWithin] at h
    cases hmark : mark bs with
    | some after =>
      simp only [hmark] at h
      cases h
      exact ⟨[], bs, by simp, .nil bs, hmark⟩
    | none =>
      cases hitem : item bs with
      | none => simp [hmark, hitem] at h
      | some p =>
        obtain ⟨x, mid⟩ := p
        simp only [hmark, hitem] at h
        obtain ⟨ys, last, rfl, hrun, hlast⟩ := ih h
        exact ⟨x :: ys, last, by simp, .cons hitem hrun, hlast⟩

theorem run_of_times {n : Nat} {xs : List α} {bs rest : Octets}
    (h : times item n bs = some (xs, rest)) : Run item bs xs rest := by
  obtain ⟨ys, rfl, hrun⟩ := run_of_timesOnto h
  exact hrun

theorem run_of_untilMark {mark : Octets → Option Octets} {xs : List α} {bs rest : Octets}
    (h : untilMark mark item bs = some (xs, rest)) :
    ∃ mid, Run item bs xs mid ∧ mark mid = some rest := by
  obtain ⟨ys, mid, rfl, hrun, hmark⟩ := run_of_untilWithin h
  exact ⟨mid, hrun, hmark⟩

end Reader

namespace Cbor

theorem length_of_breakMark {bs rest : Octets} (h : breakMark bs = some rest) :
    rest.length < bs.length := by
  unfold breakMark at h
  split at h
  · cases h
    simp
  · cases h

theorem length_of_split? {n : Nat} {bs front rest : Octets}
    (h : Octets.split? n bs = some (front, rest)) : front.length + rest.length = bs.length := by
  rw [(Octets.eq_append_of_split? h).1, List.length_append]

theorem length_of_head {bs rest : Octets} {h : Head} (hhead : head bs = some (h, rest)) :
    rest.length < bs.length := by
  cases bs with
  | nil => cases hhead
  | cons b bs =>
    simp only [head] at hhead
    split at hhead
    · cases hhead
      simp
    · split at hhead
      · obtain ⟨⟨digits, after⟩, hsplit, hhead⟩ := Option.bind_eq_some_iff.1 hhead
        have : digits.length + after.length = bs.length := length_of_split? hsplit
        dsimp only at hhead
        cases hhead
        rw [List.length_cons]
        omega
      · split at hhead
        · cases hhead
          simp
        · cases hhead

/-- The pieces of a string are found in the octets that it takes. -/
theorem length_of_piecesWithin {major fuel opened : Nat} {found parts : List Octets}
    {bs rest : Octets} (h : piecesWithin major fuel opened found bs = some (parts, rest)) :
    parts.flatten.length + rest.length ≤ found.flatten.length + bs.length := by
  induction fuel generalizing opened found bs with
  | zero => cases h
  | succ fuel ih =>
    rw [piecesWithin] at h
    cases hmark : breakMark bs with
    | some after =>
      have hlen := length_of_breakMark hmark
      simp only [hmark] at h
      split at h
      · cases h
        simp only [List.length_flatten, List.map_reverse, List.sum_reverse]
        omega
      · have := ih h
        omega
    | none =>
      simp only [hmark] at h
      obtain ⟨⟨hd, mid⟩, hhead, h⟩ := Option.bind_eq_some_iff.1 h
      have hlen := length_of_head hhead
      simp only at h
      split at h
      · cases h
      · split at h
        · have := ih h
          omega
        · obtain ⟨⟨piece, after⟩, hsplit, h⟩ := Option.bind_eq_some_iff.1 h
          have hpiece : piece.length + after.length = mid.length := length_of_split? hsplit
          have := ih h
          simp only [List.flatten_cons, List.length_append] at this
          omega

theorem length_of_pieces {major : Nat} {argument : Option Nat} {parts : List Octets}
    {bs rest : Octets} (h : pieces major argument bs = some (parts, rest)) :
    parts.flatten.length + rest.length ≤ bs.length := by
  cases argument with
  | none => simpa using length_of_piecesWithin h
  | some n =>
    obtain ⟨⟨piece, after⟩, hsplit, h⟩ := Option.bind_eq_some_iff.1 h
    have : piece.length + after.length = bs.length := length_of_split? hsplit
    cases h
    simpa using this.le

theorem encode_join {parts : List Octets} {texts : List String}
    (h : parts.mapM Utf8.decode? = some texts) :
    Utf8.encode (String.join texts) = parts.flatten := by
  have hmap := Utf8.map_eq_of_mapM h
  clear h
  induction parts generalizing texts with
  | nil =>
    obtain rfl := List.map_eq_nil_iff.1 hmap.symm
    rfl
  | cons part parts ih =>
    cases texts with
    | nil => cases hmap
    | cons text texts =>
      obtain ⟨hpart, hparts⟩ := List.cons_eq_cons.1 hmap
      rw [List.flatten_cons, ← ih hparts, ← Utf8.encode_of_decode? hpart, String.join_cons,
        Utf8.encode, String.toList_append, List.flatMap_append]
      rfl

theorem run_of_several {reader : Reader Item} {argument : Option Nat} {xs : List Item}
    {bs rest : Octets} (h : several reader argument bs = some (xs, rest)) :
    ∃ mid, Reader.Run reader bs xs mid ∧ rest.length ≤ mid.length := by
  cases argument with
  | some n => exact ⟨rest, Reader.run_of_times h, Nat.le_refl _⟩
  | none =>
    obtain ⟨mid, hrun, hmark⟩ := Reader.run_of_untilMark h
    exact ⟨mid, hrun, (length_of_breakMark hmark).le⟩

theorem run_of_entries {reader : Reader Item} {argument : Option Nat} {es : List (Item × Item)}
    {bs rest : Octets} (h : entries reader argument bs = some (es, rest)) :
    ∃ mid, Reader.Run (entry reader) bs es mid ∧ rest.length ≤ mid.length := by
  cases argument with
  | some n => exact ⟨rest, Reader.run_of_times h, Nat.le_refl _⟩
  | none =>
    obtain ⟨mid, hrun, hmark⟩ := Reader.run_of_untilMark h
    exact ⟨mid, hrun, (length_of_breakMark hmark).le⟩

theorem entry_eq_some {reader : Reader Item} {bs rest : Octets} {e : Item × Item}
    (h : entry reader bs = some (e, rest)) :
    ∃ mid, reader bs = some (e.1, mid) ∧ reader mid = some (e.2, rest) := by
  obtain ⟨⟨k, mid⟩, hkey, h⟩ := Option.bind_eq_some_iff.1 h
  obtain ⟨⟨v, last⟩, hvalue, h⟩ := Option.bind_eq_some_iff.1 h
  cases h
  exact ⟨mid, hkey, hvalue⟩

theorem Item.Fits.mono {limit limit' : Nat} (hle : limit ≤ limit') {depth : Nat} {x : Item}
    (h : x.Fits limit depth) : x.Fits limit' depth := by
  induction h with
  | unsigned n => exact .unsigned n
  | negative n => exact .negative n
  | bytes hlen => exact .bytes (hlen.trans_le hle)
  | text hlen => exact .text (hlen.trans_le hle)
  | array hlen _ ih => exact .array (hlen.trans_le hle) ih
  | map hlen _ _ ihkey ihvalue => exact .map (hlen.trans_le hle) ihkey ihvalue
  | bignum hn hb => exact .bignum hn hb
  | tagged _ ih => exact .tagged ih
  | bool b => exact .bool b
  | null => exact .null
  | float bits => exact .float bits

theorem fits_of_simple {h : Head} {x : Item} (hx : simple h = some x) (limit depth : Nat) :
    x.Fits limit depth := by
  obtain ⟨n, -, hx⟩ := Option.bind_eq_some_iff.1 hx
  repeat' split at hx
  all_goals first
    | exact Option.some.inj hx ▸ .float _
    | exact Option.some.inj hx ▸ .bool _
    | exact Option.some.inj hx ▸ .null
    | cases hx

/-- A large integer is one that 64 bits hold, or a tag over a byte string no longer than what it
was read from. -/
theorem fits_of_bignum {negative : Bool} {n : Nat} {x : Item} (hx : bignum negative n = some x)
    (hn : n < 256 ^ 16) (limit depth : Nat) : x.Fits limit depth := by
  unfold bignum at hx
  split at hx
  · cases negative
    · exact Option.some.inj hx ▸ .unsigned _
    · exact Option.some.inj hx ▸ .negative _
  · split at hx
    · cases hx
    · cases hx
      refine .bignum ?_ (by rw [Octets.length_ofNatMinimal]; exact Octets.width_le hn)
      cases negative
      · exact Or.inl rfl
      · exact Or.inr rfl

/-- The reader takes something off the front for every item that it gives, and the item nests at
most `depth` deep and holds nothing as long as what was there to read. -/
def Yields (depth : Nat) (reader : Reader Item) : Prop :=
  ∀ bs x rest, reader bs = some (x, rest) → rest.length < bs.length ∧ x.Fits bs.length depth

theorem Yields.consumes {depth : Nat} {reader : Reader Item} (h : Yields depth reader) :
    Reader.Consumes reader :=
  fun bs x rest hread => (h bs x rest hread).1

theorem Yields.consumes_entry {depth : Nat} {reader : Reader Item} (h : Yields depth reader) :
    Reader.Consumes (entry reader) := by
  intro bs e rest hread
  obtain ⟨mid, hkey, hvalue⟩ := entry_eq_some hread
  exact (h.consumes _ _ _ hvalue).trans (h.consumes _ _ _ hkey)

section

variable {depth : Nat} {reader : Reader Item} (hreader : Yields depth reader)
    {argument : Option Nat}
  {bs rest : Octets} {limit : Nat} (hlimit : bs.length < limit)
include hreader hlimit

theorem fits_of_several {xs : List Item} (h : several reader argument bs = some (xs, rest)) :
    rest.length ≤ bs.length ∧ (Item.array xs).Fits limit (depth + 1) := by
  obtain ⟨mid, hrun, hle⟩ := run_of_several h
  have hlen := hrun.length_add_le hreader.consumes
  refine ⟨by omega, .array (by omega) fun x hx => ?_⟩
  obtain ⟨front, after, hfront, hread⟩ := hrun.exists_of_mem hreader.consumes hx
  exact (hreader _ _ _ hread).2.mono (by omega)

theorem fits_of_entries {es : List (Item × Item)}
    (h : entries reader argument bs = some (es, rest)) :
    rest.length ≤ bs.length ∧ (Item.map es).Fits limit (depth + 1) := by
  obtain ⟨mid, hrun, hle⟩ := run_of_entries h
  have hlen := hrun.length_add_le hreader.consumes_entry
  refine ⟨by omega, .map (by omega) (fun e he => ?_) fun e he => ?_⟩
  · obtain ⟨front, after, hfront, hread⟩ := hrun.exists_of_mem hreader.consumes_entry he
    obtain ⟨middle, hkey, -⟩ := entry_eq_some hread
    exact (hreader _ _ _ hkey).2.mono (by omega)
  · obtain ⟨front, after, hfront, hread⟩ := hrun.exists_of_mem hreader.consumes_entry he
    obtain ⟨middle, hkey, hvalue⟩ := entry_eq_some hread
    have := hreader.consumes _ _ _ hkey
    exact (hreader _ _ _ hvalue).2.mono (by omega)

end

theorem length_of_shortBytes {bs digits rest : Octets} (h : shortBytes bs = some (digits, rest)) :
    rest.length ≤ bs.length ∧ digits.length ≤ 16 := by
  obtain ⟨⟨hd, mid⟩, hhead, h⟩ := Option.bind_eq_some_iff.1 h
  obtain ⟨n, hn, h⟩ := Option.bind_eq_some_iff.1 h
  have hlen : mid.length < bs.length := length_of_head hhead
  split at h
  · next hshort =>
    have hdigits := (Octets.eq_append_of_split? h).2
    have := length_of_split? h
    exact ⟨by omega, hdigits ▸ hshort.2⟩
  · cases h

/-- One item, where its parts come from a reader for one level less. -/
theorem yields_itemWith {inner : Option (Reader Item)} {depth : Nat}
    (hinner : ∀ reader, inner = some reader → ∃ below, depth = below + 1 ∧ Yields below reader) :
    Yields depth (itemWith inner) := by
  intro bs x rest h
  obtain ⟨⟨hd, mid⟩, hhead, h⟩ := Option.bind_eq_some_iff.1 h
  have hmid : mid.length < bs.length := length_of_head hhead
  -- the head is behind us, and what follows takes no more than what is left
  suffices hrest : rest.length ≤ mid.length ∧ x.Fits bs.length depth from
    ⟨by omega, hrest.2⟩
  simp only at h
  split at h
  · obtain ⟨n, -, h⟩ := Option.bind_eq_some_iff.1 h
    cases h
    exact ⟨Nat.le_refl _, .unsigned _⟩
  · obtain ⟨n, -, h⟩ := Option.bind_eq_some_iff.1 h
    cases h
    exact ⟨Nat.le_refl _, .negative _⟩
  · obtain ⟨⟨parts, after⟩, hpieces, h⟩ := Option.bind_eq_some_iff.1 h
    have hlen := length_of_pieces hpieces
    dsimp only at h
    cases h
    exact ⟨by omega, .bytes (by omega)⟩
  · obtain ⟨⟨parts, after⟩, hpieces, h⟩ := Option.bind_eq_some_iff.1 h
    obtain ⟨texts, htexts, h⟩ := Option.bind_eq_some_iff.1 h
    have hlen := length_of_pieces hpieces
    dsimp only at htexts h
    cases h
    exact ⟨by omega, .text (by rw [encode_join htexts]; omega)⟩
  · obtain ⟨reader, hreader, h⟩ := Option.bind_eq_some_iff.1 h
    obtain ⟨⟨xs, after⟩, hread, h⟩ := Option.bind_eq_some_iff.1 h
    obtain ⟨below, rfl, hyields⟩ := hinner reader hreader
    cases h
    exact fits_of_several hyields hmid hread
  · obtain ⟨reader, hreader, h⟩ := Option.bind_eq_some_iff.1 h
    obtain ⟨⟨es, after⟩, hread, h⟩ := Option.bind_eq_some_iff.1 h
    obtain ⟨below, rfl, hyields⟩ := hinner reader hreader
    cases h
    exact fits_of_entries hyields hmid hread
  · obtain ⟨number, -, h⟩ := Option.bind_eq_some_iff.1 h
    split at h
    · obtain ⟨⟨digits, after⟩, hdigits, h⟩ := Option.bind_eq_some_iff.1 h
      obtain ⟨y, hy, h⟩ := Option.bind_eq_some_iff.1 h
      have hlen := length_of_shortBytes hdigits
      cases h
      refine ⟨hlen.1, fits_of_bignum hy ((Octets.toNat_lt digits).trans_le ?_) _ _⟩
      exact Nat.pow_le_pow_right (by decide) hlen.2
    · obtain ⟨reader, hreader, h⟩ := Option.bind_eq_some_iff.1 h
      obtain ⟨⟨y, after⟩, hread, h⟩ := Option.bind_eq_some_iff.1 h
      obtain ⟨below, rfl, hyields⟩ := hinner reader hreader
      have hy := hyields _ _ _ hread
      cases h
      exact ⟨hy.1.le, .tagged (hy.2.mono hmid.le)⟩
  · obtain ⟨y, hy, h⟩ := Option.bind_eq_some_iff.1 h
    cases h
    exact ⟨Nat.le_refl _, fits_of_simple hy _ _⟩

theorem yields_item (depth : Nat) : Yields depth (item depth) := by
  induction depth with
  | zero => exact yields_itemWith (fun reader h => by cases h)
  | succ depth ih => exact yields_itemWith (fun reader h => ⟨depth, rfl, Option.some.inj h ▸ ih⟩)

/-- What is read from what is written for an item that has been read. -/
theorem read_write_of_read {bs rest : Octets} {x : Item} (h : read bs = some (x, rest))
    (hlen : bs.length ≤ 0x10000000000000000) (more : Octets) :
    read (write x ++ more) = x.reread.map (·, more) :=
  item_reread ((yields_item maxDepth _ _ _ h).2.mono hlen) more

end Cbor

end AttestedKey
