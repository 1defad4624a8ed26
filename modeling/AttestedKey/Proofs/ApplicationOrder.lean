import AttestedKey.Proofs.Text
import AttestedKey.Record.ApplicationId
import Mathlib.Order.Compare

/-! The order of application ids. It compares four things one after the other, each by an order
that is known to be oriented and transitive, so it is as well; and since packages and digests that
compare as equal are equal, ids are. What comes first is said without the comparison
(`ApplicationId.Precedes`), with names in the order of the octets of their text, which is that of
its characters (`Utf8.lt_iff`). -/

namespace AttestedKey

open Std (LawfulEqCmp OrientedCmp TransCmp)

namespace Utf8

theorem cons_octet_lt_iff {m n : Nat} (hm : m < 256) (hn : n < 256) {bs bs' : Octets} :
    UInt8.ofNat m :: bs < UInt8.ofNat n :: bs' ↔ m < n ∨ m = n ∧ bs < bs' := by
  rw [List.cons_lt_cons_iff, UInt8.lt_iff_toNat_lt, ← UInt8.toNat_inj, toNat_octet hm,
    toNat_octet hn]

/-- Two characters that differ decide, whatever follows them. -/
theorem encodeChar_append_lt {c d : Char} (h : c < d) (rest rest' : Octets) :
    encodeChar c ++ rest < encodeChar d ++ rest' := by
  have hlt : c.toNat < d.toNat := h
  have hscalar : d.toNat < 0xD800 ∨ 0xDFFF < d.toNat ∧ d.toNat < 0x110000 := d.valid
  unfold encodeChar
  simp only
  -- a character of more octets has the greater lead octet; of as many, the first digit that
  -- differs decides
  split_ifs <;> simp (disch := omega) only [List.cons_append, List.nil_append, cons_octet_lt_iff]
    <;> omega

theorem flatMap_encodeChar_lt {cs ds : List Char} (h : cs < ds) :
    cs.flatMap encodeChar < ds.flatMap encodeChar := by
  induction h with
  | @nil d ds =>
    obtain ⟨b, bs, hd, -⟩ := step_encodeChar d []
    rw [List.flatMap_nil, List.flatMap_cons, hd]
    exact List.nil_lt_cons _ _
  | rel h => exact encodeChar_append_lt h _ _
  | cons _ ih => exact List.append_left_lt ih

/-- Texts are in the order of their octets. -/
theorem lt_iff {s t : String} : s < t ↔ encode s < encode t := by
  have hlt : ∀ {s t : String}, s < t → encode s < encode t :=
    fun h => flatMap_encodeChar_lt (String.lt_iff.1 h)
  refine ⟨hlt, fun h => ?_⟩
  rcases Std.lt_trichotomy s t with hst | rfl | hts
  · exact hst
  · exact absurd h (List.lt_irrefl _)
  · exact absurd h (List.lt_asymm (hlt hts))

end Utf8

/-- A part of the values decides. -/
theorem transCmp_on {α β : Type} (cmp : β → β → Ordering) [TransCmp cmp] (part : α → β) :
    TransCmp fun a b => cmp (part a) (part b) where
  eq_swap := OrientedCmp.eq_swap
  isLE_trans := TransCmp.isLE_trans

section Lexicographic

variable {α : Type} {cmp : α → α → Ordering}

theorem lexicographic_eq : lexicographic cmp = List.compareLex cmp := by
  funext as bs
  induction as generalizing bs with
  | nil => cases bs <;> rfl
  | cons a as ih =>
    cases bs with
    | nil => rfl
    | cons b bs => rw [lexicographic, ih, List.compareLex_cons_cons]

instance [TransCmp cmp] : TransCmp (lexicographic cmp) := lexicographic_eq ▸ inferInstance

instance [LawfulEqCmp cmp] : LawfulEqCmp (lexicographic cmp) := lexicographic_eq ▸ inferInstance

theorem lexicographic_eq_lt_iff [LawfulEqCmp cmp] {precedes : α → α → Prop}
    (h : ∀ a b, cmp a b = .lt ↔ precedes a b) {as bs : List α} :
    lexicographic cmp as bs = .lt ↔ List.Lex precedes as bs := by
  induction as generalizing bs with
  | nil => cases bs <;> simp [lexicographic]
  | cons a as ih =>
    cases bs with
    | nil => simp [lexicographic]
    | cons b bs =>
      rw [lexicographic, Ordering.then_eq_lt, h, ih, LawfulEqCmp.compare_eq_iff_eq,
        List.cons_lex_cons_iff]

end Lexicographic

namespace Package

inductive Precedes (a b : Package) : Prop
  | name : Utf8.encode a.name < Utf8.encode b.name → Precedes a b
  | version : a.name = b.name → a.version < b.version → Precedes a b

instance : TransCmp compare :=
  inferInstanceAs (TransCmp (compareLex (compareOn name) (compareOn version)))

instance : LawfulEqCmp compare where
  compare_self := by simp [compare]
  eq_of_compare h := by
    obtain ⟨hname, hversion⟩ := Ordering.then_eq_eq.1 h
    rw [Package.mk.injEq]
    exact ⟨LawfulEqCmp.eq_of_compare hname, LawfulEqCmp.eq_of_compare hversion⟩

theorem compare_eq_lt_iff (a b : Package) : compare a b = .lt ↔ Precedes a b := by
  have hname : Ord.compare a.name b.name = .lt ↔ Utf8.encode a.name < Utf8.encode b.name :=
    compareOfLessAndEq_eq_lt.trans Utf8.lt_iff
  rw [compare, Ordering.then_eq_lt, hname, LawfulEqCmp.compare_eq_iff_eq, Std.compare_eq_lt]
  constructor
  · rintro (h | ⟨h, h'⟩)
    · exact .name h
    · exact .version h h'
  · rintro (h | ⟨h, h'⟩)
    · exact .inl h
    · exact .inr ⟨h, h'⟩

end Package

/-- Shorter digests first, then by their octets as signed numbers. -/
inductive DigestPrecedes (a b : Octets) : Prop
  | length : a.length < b.length → DigestPrecedes a b
  | octets : a.length = b.length → List.Lex (fun x y => x.toInt8 < y.toInt8) a b →
      DigestPrecedes a b

def compareSigned (x y : UInt8) : Ordering := Ord.compare x.toInt8 y.toInt8

instance : TransCmp compareSigned := inferInstanceAs (TransCmp (compareOn UInt8.toInt8))

instance : LawfulEqCmp compareSigned where
  compare_self := by simp [compareSigned]
  eq_of_compare h := congrArg Int8.toUInt8 (LawfulEqCmp.eq_of_compare h)

theorem compareSigned_eq_lt_iff (x y : UInt8) : compareSigned x y = .lt ↔ x.toInt8 < y.toInt8 :=
  Std.compare_eq_lt

instance : TransCmp compareDigest :=
  inferInstanceAs (TransCmp (compareLex (compareOn List.length) (lexicographic compareSigned)))

theorem compareDigest_eq (a b : Octets) :
    compareDigest a b = (Ord.compare a.length b.length).then (lexicographic compareSigned a b) :=
      rfl

instance : LawfulEqCmp compareDigest where
  compare_self := by simp [compareDigest_eq]
  eq_of_compare h := by
    rw [compareDigest_eq] at h
    exact LawfulEqCmp.eq_of_compare (Ordering.then_eq_eq.1 h).2

theorem compareDigest_eq_lt_iff (a b : Octets) : compareDigest a b = .lt ↔ DigestPrecedes a b := by
  have hoctets : lexicographic compareSigned a b = .lt ↔
    List.Lex (fun x y => x.toInt8 < y.toInt8) a b :=
    lexicographic_eq_lt_iff compareSigned_eq_lt_iff
  rw [compareDigest_eq, Ordering.then_eq_lt, hoctets, LawfulEqCmp.compare_eq_iff_eq,
    Std.compare_eq_lt]
  constructor
  · rintro (h | ⟨h, h'⟩)
    · exact .length h
    · exact .octets h h'
  · rintro (h | ⟨h, h'⟩)
    · exact .inl h
    · exact .inr ⟨h, h'⟩

/-- A comparison that puts any values in order, and what comes first in it. -/
structure IsTotalOrder {α : Type} (cmp : α → α → Ordering) (precedes : α → α → Prop) : Prop where
  eq_iff : ∀ a b, cmp a b = .eq ↔ a = b
  swap : ∀ a b, cmp b a = (cmp a b).swap
  trans : ∀ a b c, cmp a b ≠ .gt → cmp b c ≠ .gt → cmp a c ≠ .gt
  lt_iff : ∀ a b, cmp a b = .lt ↔ precedes a b

namespace ApplicationId

inductive Precedes (a b : ApplicationId) : Prop
  | packageCount : a.packages.length < b.packages.length → Precedes a b
  | packages : a.packages.length = b.packages.length →
      List.Lex Package.Precedes a.packages b.packages → Precedes a b
  | digestCount : a.packages = b.packages → a.digests.length < b.digests.length → Precedes a b
  | digests : a.packages = b.packages → a.digests.length = b.digests.length →
      List.Lex DigestPrecedes a.digests b.digests → Precedes a b

instance : TransCmp compare :=
  have := transCmp_on (lexicographic Package.compare) packages
  have := transCmp_on (lexicographic compareDigest) digests
  inferInstanceAs (TransCmp (compareLex (compareOn fun a : ApplicationId => a.packages.length)
    (compareLex (fun a b : ApplicationId => lexicographic Package.compare a.packages b.packages)
      (compareLex (compareOn fun a : ApplicationId => a.digests.length)
        fun a b : ApplicationId => lexicographic compareDigest a.digests b.digests))))

theorem compare_eq_eq_iff (a b : ApplicationId) : compare a b = .eq ↔ a = b := by
  constructor
  · intro h
    simp only [compare, Ordering.then_eq_eq, LawfulEqCmp.compare_eq_iff_eq] at h
    obtain ⟨-, hpackages, -, hdigests⟩ := h
    rw [ApplicationId.mk.injEq]
    exact ⟨hpackages, hdigests⟩
  · rintro rfl
    simp [compare]

theorem compare_eq_lt_iff (a b : ApplicationId) : compare a b = .lt ↔ Precedes a b := by
  simp only [compare, Ordering.then_eq_lt, lexicographic_eq_lt_iff Package.compare_eq_lt_iff,
    lexicographic_eq_lt_iff compareDigest_eq_lt_iff, LawfulEqCmp.compare_eq_iff_eq,
    Std.compare_eq_lt]
  constructor
  · rintro (h | ⟨h, h' | ⟨hpackages, h' | ⟨h', hdigests⟩⟩⟩)
    · exact .packageCount h
    · exact .packages h h'
    · exact .digestCount hpackages h'
    · exact .digests hpackages h' hdigests
  · rintro (h | ⟨h, h'⟩ | ⟨hpackages, h'⟩ | ⟨hpackages, h', hdigests⟩)
    · exact .inl h
    · exact .inr ⟨h, .inl h'⟩
    · exact .inr ⟨congrArg _ hpackages, .inr ⟨hpackages, .inl h'⟩⟩
    · exact .inr ⟨congrArg _ hpackages, .inr ⟨hpackages, .inr ⟨h', hdigests⟩⟩⟩

theorem compare_isTotalOrder : IsTotalOrder compare Precedes where
  eq_iff := compare_eq_eq_iff
  swap _ _ := OrientedCmp.eq_swap
  trans _ _ _ hab hbc :=
    Ordering.ne_gt_iff_isLE.2
      (TransCmp.isLE_trans (Ordering.ne_gt_iff_isLE.1 hab) (Ordering.ne_gt_iff_isLE.1 hbc))
  lt_iff := compare_eq_lt_iff

end ApplicationId

end AttestedKey
