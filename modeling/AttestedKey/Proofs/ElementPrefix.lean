import AttestedKey.Certificate.Basic
import AttestedKey.Proofs.WrittenElements

/-! Readers that go by the octets they take and by nothing behind them (`Reader.IsLocal`). The
header of an element is read so. What is read of an element is therefore read again of any octets
that begin as the element does (`Der.takes_of_read`), and the same holds of the fields of a
certificate (`CertificateFields.read_eq_some`). -/

namespace AttestedKey

namespace Reader

variable {α β : Type} {item : Reader α}

/-- The octets that are taken are given the same meaning whatever follows them. -/
def IsLocal (item : Reader α) : Prop :=
  ∀ bs a rest, item bs = some (a, rest) → ∃ front, bs = front ++ rest ∧
    ∀ more, item (front ++ more) = some (a, more)

/-- What the one reader gives, the other gives too. -/
def Covers (item item' : Reader α) : Prop :=
  ∀ bs x rest, item bs = some (x, rest) → item' bs = some (x, rest)

theorem isLocal_some (a : α) : IsLocal fun bs => some (a, bs) := by
  intro bs b rest h
  cases h
  exact ⟨[], rfl, fun _ => rfl⟩

theorem isLocal_none : IsLocal fun _ => (none : Option (α × Octets)) := by
  intro bs a rest h
  cases h

/-- Nothing is taken for what is known already. -/
theorem isLocal_known {a : Option α} {item : α → Reader β}
    (h : ∀ x, a = some x → IsLocal (item x)) : IsLocal fun bs => a.bind fun x => item x bs := by
  cases a with
  | none => exact isLocal_none
  | some x => exact h x rfl

/-- One reader behind the other. -/
theorem IsLocal.bind {first : Reader α} {second : α → Reader β} (hfirst : IsLocal first)
    (hsecond : ∀ a, IsLocal (second a)) :
    IsLocal fun bs => (first bs).bind fun p => second p.1 p.2 := by
  intro bs b rest h
  obtain ⟨⟨a, mid⟩, ha, hb⟩ := Option.bind_eq_some_iff.1 h
  obtain ⟨front, rfl, hfront⟩ := hfirst _ _ _ ha
  obtain ⟨back, rfl, hback⟩ := hsecond a _ _ _ hb
  refine ⟨front ++ back, (List.append_assoc _ _ _).symm, fun more => ?_⟩
  calc (first (front ++ back ++ more)).bind (fun p => second p.1 p.2)
      = (first (front ++ (back ++ more))).bind (fun p => second p.1 p.2) := by
        rw [List.append_assoc]
    _ = second a (back ++ more) := by rw [hfront]; rfl
    _ = some (b, more) := hback more

/-- A reader that looks at one octet first. -/
theorem isLocal_of_cons {item : Reader α} {behind : UInt8 → Reader α} (hnil : item [] = none)
    (hcons : ∀ b bs, item (b :: bs) = behind b bs) (hbehind : ∀ b, IsLocal (behind b)) :
    IsLocal item := by
  intro bs a rest h
  cases bs with
  | nil =>
    rw [hnil] at h
    cases h
  | cons b bs =>
    rw [hcons] at h
    obtain ⟨front, rfl, hfront⟩ := hbehind b _ _ _ h
    exact ⟨b :: front, rfl, fun more => (hcons b _).trans (hfront more)⟩

theorem isLocal_ite {p : Prop} [Decidable p] {item item' : Reader α} (h : IsLocal item)
    (h' : IsLocal item') : IsLocal fun bs => if p then item bs else item' bs := by
  by_cases hp : p
  · simpa only [if_pos hp] using h
  · simpa only [if_neg hp] using h'

theorem isLocal_split? (n : Nat) : IsLocal (Octets.split? n) := by
  intro bs front rest h
  obtain ⟨rfl, rfl⟩ := Octets.eq_append_of_split? h
  exact ⟨front, rfl, fun more => Octets.split?_append front more⟩

/-- What is taken is not nothing, if nothing can be read off nothing. -/
theorem ne_nil_of_front (hnil : item [] = none) {front : Octets} {a : α}
    (hfront : ∀ more, item (front ++ more) = some (a, more)) : front ≠ [] := by
  rintro rfl
  cases hnil.symm.trans (hfront [])

/-- The mark takes some octets and goes by these alone, and whether it stands first shows in the
octets of an item. -/
structure Delimits (mark : Octets → Option Octets) (item : Reader α) : Prop where
  marked : ∀ bs rest, mark bs = some rest → ∃ front, bs = front ++ rest ∧
    ∀ more, mark (front ++ more) = some more
  unmarked : ∀ front a rest, (∀ more, item (front ++ more) = some (a, more)) →
    mark (front ++ rest) = none →
    ∀ more, mark (front ++ more) = none

/-- The fuel is as much as there are octets, so where fewer are left there is less of it. It is
enough if it is more than the octets that are taken. -/
theorem untilWithin_front {mark : Octets → Option Octets} (hitem : IsLocal item)
    (hnil : item [] = none) (hmark : Delimits mark item) {fuel : Nat} {found as : List α}
    {bs rest : Octets} (h : untilWithin mark item fuel found bs = some (as, rest)) :
    ∃ front, bs = front ++ rest ∧ ∀ more fuel', front.length < fuel' →
      untilWithin mark item fuel' found (front ++ more) = some (as, more) := by
  induction fuel generalizing found bs with
  | zero => cases h
  | succ fuel ih =>
    rw [untilWithin] at h
    cases hfirst : mark bs with
    | some after =>
      obtain ⟨front, rfl, hfront⟩ := hmark.marked _ _ hfirst
      simp only [hfirst] at h
      cases h
      refine ⟨front, rfl, fun more fuel' hfuel => ?_⟩
      obtain ⟨fuel', rfl⟩ := Nat.exists_eq_succ_of_ne_zero (Nat.ne_zero_of_lt hfuel)
      rw [untilWithin, hfront]
    | none =>
      cases hread : item bs with
      | none => simp [hfirst, hread] at h
      | some p =>
        obtain ⟨a, mid⟩ := p
        simp only [hfirst, hread] at h
        obtain ⟨first, rfl, hlocal⟩ := hitem _ _ _ hread
        obtain ⟨front, rfl, hfront⟩ := ih h
        have hpos : 0 < first.length := List.length_pos_iff.2 (ne_nil_of_front hnil hlocal)
        refine ⟨first ++ front, by rw [List.append_assoc], fun more fuel' hfuel => ?_⟩
        obtain ⟨fuel', rfl⟩ := Nat.exists_eq_succ_of_ne_zero (Nat.ne_zero_of_lt hfuel)
        rw [List.length_append] at hfuel
        rw [List.append_assoc, untilWithin, hmark.unmarked _ _ _ hlocal hfirst]
        simp only [hlocal]
        exact hfront more fuel' (by omega)

theorem isLocal_untilMark {mark : Octets → Option Octets} (hitem : IsLocal item)
    (hnil : item [] = none) (hmark : Delimits mark item) : IsLocal (untilMark mark item) := by
  intro bs as rest h
  obtain ⟨front, rfl, hfront⟩ := untilWithin_front hitem hnil hmark h
  exact ⟨front, rfl, fun more => hfront more _ (by rw [List.length_append]; omega)⟩

theorem Covers.allWithin {item' : Reader α} (h : Covers item item') {n : Nat} {as all : List α}
    {bs : Octets} (hall : allWithin item n as bs = some all) :
    allWithin item' n as bs = some all := by
  induction n generalizing as bs with
  | zero => cases bs <;> exact hall
  | succ n ih =>
    cases bs with
    | nil => exact hall
    | cons b bs =>
      simp only [Reader.allWithin] at hall ⊢
      cases hitem : item (b :: bs) with
      | none =>
        rw [hitem] at hall
        cases hall
      | some p =>
        rw [hitem] at hall
        rw [h _ _ _ hitem]
        exact ih hall

end Reader

namespace Ber

open Reader

theorem isLocal_tagDigits (left high : Nat) : IsLocal (tagDigits left high) := by
  induction left generalizing high with
  | zero => exact isLocal_none
  | succ left ih =>
    exact isLocal_of_cons rfl (fun _ _ => rfl) fun b => isLocal_ite (isLocal_some _) (ih _)

theorem isLocal_tagNumber (lead : UInt8) : IsLocal (tagNumber lead) :=
  isLocal_ite (isLocal_tagDigits 5 0) (isLocal_some _)

/-- The value of a length in the long form. -/
theorem isLocal_longLength (n : Nat) : IsLocal fun bs => (Octets.split? n bs).bind fun p =>
    if Octets.toNat p.1 < 0x10000000000000000 then some (some (Octets.toNat p.1), p.2)
      else none := by
  have hvalue : ∀ digits, IsLocal fun rest =>
      if Octets.toNat digits < 0x10000000000000000 then some (some (Octets.toNat digits), rest)
        else none :=
    fun _ => isLocal_ite (isLocal_some _) isLocal_none
  exact (isLocal_split? n).bind hvalue

theorem isLocal_length : IsLocal length := by
  refine isLocal_of_cons rfl (fun b bs => by rw [length]) fun b => ?_
  by_cases hshort : b < 0x80
  · simpa only [if_pos hshort] using isLocal_some _
  by_cases hindefinite : b = 0x80
  · simpa only [if_neg hshort, if_pos hindefinite] using isLocal_some _
  by_cases hreserved : b = 0xFF
  · simpa only [if_neg hshort, if_neg hindefinite, if_pos hreserved] using isLocal_none
  · simpa only [if_neg hshort, if_neg hindefinite, if_neg hreserved, Option.bind_eq_bind] using
      isLocal_longLength (b.toNat - 0x80)

/-- What a header says of its content. -/
theorem isLocal_described (lead : UInt8) (tag : Nat) (len : Option Nat) : IsLocal fun bs =>
    if len.isNone ∧ ¬lead.toNat / 32 % 2 = 1 then none
    else some ((⟨tagClass lead, lead.toNat / 32 % 2 = 1, tag, len⟩ : Header), bs) :=
  isLocal_ite isLocal_none (isLocal_some _)

theorem isLocal_header : IsLocal header :=
  isLocal_of_cons rfl (fun lead bs => by rw [header]; rfl) fun lead =>
    (isLocal_tagNumber lead).bind fun tag => isLocal_length.bind fun len =>
      isLocal_described lead tag len

theorem tag_of_header {lead : UInt8} {bs rest : Octets} {h : Header} (hlow : lead.toNat % 32 ≠ 31)
    (hheader : header (lead :: bs) = some (h, rest)) : h.tag = lead.toNat % 32 := by
  rw [header, tagNumber, if_neg hlow] at hheader
  simp only [Option.bind_eq_bind, Option.bind_some] at hheader
  obtain ⟨⟨len, behind⟩, -, hheader⟩ := Option.bind_eq_some_iff.1 hheader
  dsimp only at hheader
  split at hheader
  · cases hheader
  · cases hheader
    rfl

end Ber

namespace Der

theorem read_eq_some_iff {e : Element} {bs rest : Octets} : Element.read bs = some (e, rest) ↔
    ∃ h behind n content, Ber.header bs = some (h, behind) ∧ h.length = some n ∧
      Octets.split? n behind = some (content, rest) ∧
      e = ⟨h.tagClass, h.constructed, h.tag, bs.take (bs.length - behind.length), content⟩ := by
  unfold Element.read
  simp only [Option.bind_eq_bind, Option.bind_eq_some_iff, Prod.exists, Option.pure_def,
    Option.some_inj, Prod.mk.injEq]
  constructor
  · rintro ⟨h, behind, hheader, n, hn, content, after, hsplit, rfl, rfl⟩
    exact ⟨h, behind, n, content, hheader, hn, hsplit, rfl⟩
  · rintro ⟨h, behind, n, content, hheader, hn, hsplit, rfl⟩
    exact ⟨h, behind, hheader, n, hn, content, rest, hsplit, rfl, rfl⟩

/-- An element that has been read is read again wherever its octets stand. -/
theorem takes_of_read {e : Element} {bs rest : Octets} (h : Element.read bs = some (e, rest)) :
    bs = e.raw ++ rest ∧ Reader.Takes Element.read e.raw (some e) := by
  obtain ⟨hd, behind, n, content, hheader, hn, hsplit, rfl⟩ := read_eq_some_iff.1 h
  obtain ⟨front, rfl, hfront⟩ := Ber.isLocal_header _ _ _ hheader
  obtain ⟨rfl, rfl⟩ := Octets.eq_append_of_split? hsplit
  have htake : ∀ more : Octets, (front ++ more).take ((front ++ more).length - more.length) =
    front := by
    intro more
    rw [List.length_append, Nat.add_sub_cancel, List.take_left]
  rw [htake]
  refine ⟨(List.append_assoc front content rest).symm, ?_, fun more => read_eq_some_iff.2 ?_⟩
  · -- a header has an octet
    intro hnil
    obtain ⟨rfl, -⟩ := List.append_eq_nil_iff.1 hnil
    cases hfront []
  · refine ⟨hd, content ++ more, content.length, content, ?_, hn,
      Octets.split?_append content more, ?_⟩
    · rw [Element.raw, List.append_assoc]
      exact hfront _
    · rw [Element.raw, List.append_assoc, htake]

end Der

namespace CertificateFields

open Der (Element)

theorem read_eq_some_iff {bs der rest : Octets} {fields : CertificateFields} :
    read bs = some (fields, der, rest) ↔
      ∃ e : Element, Element.read bs = some (e, rest) ∧ e.tag = 16 ∧
        ofContent? e.content = some fields ∧ e.raw = der := by
  unfold read Element.numbered
  simp only [Option.bind_eq_bind, Option.bind_eq_some_iff, Prod.exists, Option.pure_def,
    Option.some.injEq, Prod.mk.injEq]
  constructor
  · rintro ⟨e, rest', ⟨e', after, hread, h⟩, fields', hfields, rfl, rfl, rfl⟩
    split at h
    · next htag =>
      cases h
      exact ⟨e, hread, htag, hfields, rfl⟩
    · cases h
  · rintro ⟨e, hread, htag, hfields, rfl⟩
    exact ⟨e, rest, ⟨e, rest, hread, if_pos htag⟩, fields, hfields, rfl, rfl, rfl⟩

/-- A certificate that has been read is read again wherever its octets stand. -/
theorem read_eq_some {bs der rest : Octets} {fields : CertificateFields}
    (h : read bs = some (fields, der, rest)) :
    bs = der ++ rest ∧ der ≠ [] ∧ ∀ more, read (der ++ more) = some (fields, der, more) := by
  obtain ⟨e, hread, htag, hfields, rfl⟩ := read_eq_some_iff.1 h
  obtain ⟨hbs, hne, htakes⟩ := Der.takes_of_read hread
  exact ⟨hbs, hne, fun more => read_eq_some_iff.2 ⟨e, htakes more, htag, hfields, rfl⟩⟩

end CertificateFields

namespace Certificate

theorem ofDer_eq_ok_iff {der : Octets} {c : Certificate} : ofDer der = .ok c ↔
    CertificateFields.read der = some (c.fields, der, []) ∧ c.der = der ∧
      Conformance.isCertificate der = true := by
  unfold ofDer
  constructor
  · intro h
    split at h
    · cases h
    · next hread =>
      split at h
      · next hrest =>
        split at h
        · next hconforms =>
          cases h
          obtain ⟨hder, -, -⟩ := CertificateFields.read_eq_some hread
          rw [List.isEmpty_iff] at hrest
          subst hrest
          rw [List.append_nil] at hder
          exact ⟨hder ▸ hread, rfl, hconforms⟩
        · cases h
      · cases h
  · rintro ⟨hread, rfl, hconforms⟩
    rw [hread]
    exact if_pos hconforms

/-- A certificate that is accepted is the front of whatever its octets are the front of. -/
theorem read_append {c : Certificate} (h : ofDer c.der = .ok c) (more : Octets) :
    CertificateFields.read (c.der ++ more) = some (c.fields, c.der, more) :=
  (CertificateFields.read_eq_some (ofDer_eq_ok_iff.1 h).1).2.2 more

theorem der_ne_nil {c : Certificate} (h : ofDer c.der = .ok c) : c.der ≠ [] :=
  (CertificateFields.read_eq_some (ofDer_eq_ok_iff.1 h).1).2.1

end Certificate

end AttestedKey
