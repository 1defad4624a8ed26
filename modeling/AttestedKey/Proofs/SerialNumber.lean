import AttestedKey.Octets
import AttestedKey.Revocation.SerialKey
import Mathlib.Data.List.TakeWhile
import Mathlib.Tactic.IntervalCases

/-! Spellings of serial numbers. A key of the status list may have white space around its digits,
zeros before them, and letters of either case; a certificate has its serial number in the shortest
lower case form. `denotes_iff` says that the two meet exactly when they spell the same number. -/

namespace AttestedKey.SerialKey

open Octets (hexValue?)

def numberAfter (n : Nat) (digits : List Nat) : Nat := digits.foldl (fun n d => n * 16 + d) n

def numberOf (digits : List Nat) : Nat := numberAfter 0 digits

/-- The key is white space around at least one hexadecimal digit, and the digits are those of the
number. -/
def Denotes (key : String) (n : Nat) : Prop :=
  ∃ before digits after values, key.toList = before ++ digits ++ after ∧
    (∀ c ∈ before, isWhiteSpace c = true) ∧ (∀ c ∈ after, isWhiteSpace c = true) ∧ digits ≠ [] ∧
    digits.mapM hexValue? = some values ∧ numberOf values = n

section

variable {c : Char} {d : Nat}

theorem hexValue?_eq_some_iff :
    hexValue? c = some d ↔ (48 ≤ c.toNat ∧ c.toNat ≤ 57 ∧ d = c.toNat - 48) ∨
      (97 ≤ c.toNat ∧ c.toNat ≤ 102 ∧ d = c.toNat - 87) ∨
      (65 ≤ c.toNat ∧ c.toNat ≤ 70 ∧ d = c.toNat - 55) := by
  simp only [hexValue?]
  split
  · rw [Option.some.injEq]; omega
  · split
    · rw [Option.some.injEq]; omega
    · split
      · rw [Option.some.injEq]; omega
      · simp only [reduceCtorEq, false_iff]; omega

theorem toNat_toLower (c : Char) :
    c.toLower.toNat = if 65 ≤ c.toNat ∧ c.toNat ≤ 90 then c.toNat + 32 else c.toNat := by
  unfold Char.toLower
  split
  · next h =>
    have h₁ : 65 ≤ c.toNat := h.1
    have h₂ : c.toNat ≤ 90 := h.2
    rw [if_pos ⟨h₁, h₂⟩]
    change (c.val + 32).toNat = c.val.toNat + 32
    rw [UInt32.toNat_add]
    exact Nat.mod_eq_of_lt (Nat.lt_of_le_of_lt (Nat.add_le_add_right h₂ 32) (by decide))
  · next h =>
    rw [if_neg fun hn => h ⟨hn.1, hn.2⟩]

theorem toNat_digitChar (h : d < 16) : d.digitChar.toNat = if d < 10 then d + 48 else d + 87 := by
  interval_cases d <;> rfl

theorem toLower_digitChar (h : d < 16) : d.digitChar.toLower = d.digitChar := by
  interval_cases d <;> rfl

theorem hexValue?_iff : hexValue? c = some d ↔ d < 16 ∧ c.toLower = d.digitChar := by
  have hl := toNat_toLower c
  rw [hexValue?_eq_some_iff]
  constructor
  · intro h
    have hd : d < 16 := by omega
    refine ⟨hd, Char.toNat_inj.1 ?_⟩
    rw [toNat_digitChar hd, hl]
    split <;> split <;> omega
  · rintro ⟨hd, he⟩
    have hn := congrArg Char.toNat he
    rw [toNat_digitChar hd, hl] at hn
    split at hn <;> split at hn <;> omega

theorem not_isWhiteSpace_of_hexValue? (h : hexValue? c = some d) : isWhiteSpace c = false := by
  rw [hexValue?_eq_some_iff] at h
  simp only [isWhiteSpace, Bool.or_eq_false_iff, Bool.and_eq_false_iff, decide_eq_false_iff_not,
    beq_eq_false_iff_ne]
  omega

end

/-- Digits are read exactly if lower case turns them into those that numbers are written with. -/
theorem mapM_hexValue?_iff (cs : List Char) (values : List Nat) :
    cs.mapM hexValue? = some values ↔
      (∀ d ∈ values, d < 16) ∧ cs.map Char.toLower = values.map Nat.digitChar := by
  induction cs generalizing values with
  | nil => cases values <;> simp
  | cons c cs ih =>
    cases values with
    | nil =>
      simp only [List.mapM_cons, Option.bind_eq_bind, List.map_cons, List.map_nil, reduceCtorEq,
        and_false, iff_false]
      cases hexValue? c <;> cases cs.mapM hexValue? <;> simp
    | cons d values =>
      have hcons : (c :: cs).mapM hexValue? = some (d :: values) ↔
          hexValue? c = some d ∧ cs.mapM hexValue? = some values := by
        rw [List.mapM_cons]
        cases hexValue? c <;> cases cs.mapM hexValue? <;> simp
      rw [hcons, hexValue?_iff, ih, List.forall_mem_cons, List.map_cons, List.map_cons,
        List.cons.injEq, and_and_and_comm]

def withoutZeros (cs : List Char) : List Char :=
  match cs.dropWhile (· == '0') with
  | [] => ['0']
  | significant => significant

theorem withoutZeros_cons {c : Char} (h : c ≠ '0') (cs : List Char) :
    withoutZeros (c :: cs) = c :: cs := by
  unfold withoutZeros
  rw [List.dropWhile_cons_of_neg (by simpa using h)]

theorem toDigits_numberAfter {n : Nat} (hn : 0 < n) {digits : List Nat} (h : ∀ d ∈ digits, d < 16) :
    Nat.toDigits 16 (numberAfter n digits) = Nat.toDigits 16 n ++ digits.map Nat.digitChar := by
  induction digits generalizing n with
  | nil => simp [numberAfter]
  | cons d digits ih =>
    obtain ⟨hd, ht⟩ := List.forall_mem_cons.1 h
    have ha := Nat.toDigits_append_toDigits (b := 16) (by decide) hn hd
    calc Nat.toDigits 16 (numberAfter n (d :: digits))
        = Nat.toDigits 16 (numberAfter (16 * n + d) digits) := by
          rw [numberAfter, List.foldl_cons, Nat.mul_comm n 16, numberAfter]
      _ = Nat.toDigits 16 (16 * n + d) ++ digits.map Nat.digitChar := ih (by omega) ht
      _ = Nat.toDigits 16 n ++ (d :: digits).map Nat.digitChar := by
          rw [← ha, Nat.toDigits_of_lt_base hd, List.map_cons, List.append_assoc,
            List.singleton_append]

theorem withoutZeros_digits {digits : List Nat} (h : ∀ d ∈ digits, d < 16) :
    withoutZeros (digits.map Nat.digitChar) = Nat.toDigits 16 (numberOf digits) := by
  induction digits with
  | nil => rfl
  | cons d digits ih =>
    obtain ⟨hd, ht⟩ := List.forall_mem_cons.1 h
    rw [List.map_cons]
    rcases Nat.eq_zero_or_pos d with rfl | hpos
    · exact ih ht
    · have hc : d.digitChar ≠ '0' := by
        rw [Ne, Nat.digitChar_eq_zero]
        omega
      have hn := toDigits_numberAfter hpos ht
      rw [withoutZeros_cons hc, numberOf, numberAfter, List.foldl_cons, Nat.zero_mul, Nat.zero_add]
      rw [numberAfter, Nat.toDigits_of_lt_base hd] at hn
      exact hn.symm

theorem exists_digits (n : Nat) :
    ∃ digits : List Nat, (∀ d ∈ digits, d < 16) ∧ Nat.toDigits 16 n = digits.map Nat.digitChar ∧
      numberOf digits = n := by
  induction n using Nat.strongRecOn with
  | ind n ih =>
    by_cases hn : n < 16
    · exact ⟨[n], by simpa using hn, Nat.toDigits_of_lt_base hn, by simp [numberOf, numberAfter]⟩
    · obtain ⟨digits, hd, ht, hv⟩ := ih (n / 16) (by omega)
      refine ⟨digits ++ [n % 16], ?_, ?_, ?_⟩
      · intro d hm
        rcases List.mem_append.1 hm with hm | hm
        · exact hd d hm
        · rw [List.mem_singleton.1 hm]
          omega
      · rw [Nat.toDigits_of_base_le (by decide) (by omega), ht, List.map_append, List.map_singleton]
      · rw [numberOf, numberAfter] at hv
        rw [numberOf, numberAfter, List.foldl_append, hv, List.foldl_cons, List.foldl_nil]
        omega

theorem withoutZeros_iff (cs : List Char) (n : Nat) :
    withoutZeros cs = Nat.toDigits 16 n ↔
      ∃ digits : List Nat, (∀ d ∈ digits, d < 16) ∧ cs = digits.map Nat.digitChar ∧
        numberOf digits = n := by
  constructor
  · intro h
    induction cs with
    | nil =>
      obtain ⟨digits, hd, ht, hv⟩ := exists_digits n
      rw [← h] at ht
      obtain ⟨d, rfl, hz⟩ := List.map_eq_singleton_iff.1 ht.symm
      rw [Nat.digitChar_eq_zero] at hz
      subst hz
      exact ⟨[], by simp, rfl, hv⟩
    | cons c cs ih =>
      by_cases hc : c = '0'
      · subst hc
        obtain ⟨digits, hd, rfl, hv⟩ := ih h
        refine ⟨0 :: digits, ?_, rfl, ?_⟩
        · exact List.forall_mem_cons.2 ⟨by decide, hd⟩
        · rw [← hv]
          rfl
      · obtain ⟨digits, hd, ht, hv⟩ := exists_digits n
        rw [withoutZeros_cons hc] at h
        exact ⟨digits, hd, h.trans ht, hv⟩
  · rintro ⟨digits, hd, rfl, rfl⟩
    exact withoutZeros_digits hd

/-- What is trimmed off is white space. -/
theorem exists_trimChars (cs : List Char) :
    ∃ before after, cs = before ++ trimChars cs ++ after ∧ (∀ c ∈ before, isWhiteSpace c = true) ∧
      ∀ c ∈ after, isWhiteSpace c = true := by
  refine ⟨cs.takeWhile isWhiteSpace,
    ((cs.dropWhile isWhiteSpace).reverse.takeWhile isWhiteSpace).reverse,
    ?_, fun c hc => List.mem_takeWhile_imp hc,
    fun c hc => List.mem_takeWhile_imp (List.mem_reverse.1 hc)⟩
  rw [trimChars, List.append_assoc, ← List.reverse_append, List.takeWhile_append_dropWhile,
    List.reverse_reverse, List.takeWhile_append_dropWhile]

theorem dropWhile_isWhiteSpace {front rest : List Char} (hf : ∀ c ∈ front, isWhiteSpace c = true)
    (hr : ∀ c ∈ rest.head?, isWhiteSpace c = false) :
    (front ++ rest).dropWhile isWhiteSpace = rest := by
  rw [List.dropWhile_append_of_pos hf]
  cases rest with
  | nil => rfl
  | cons c rest => exact List.dropWhile_cons_of_neg (by simp [hr c rfl])

theorem trimChars_append {before middle after : List Char}
    (hb : ∀ c ∈ before, isWhiteSpace c = true) (ha : ∀ c ∈ after, isWhiteSpace c = true)
    (hm : ∀ c ∈ middle, isWhiteSpace c = false) (hne : middle ≠ []) :
    trimChars (before ++ middle ++ after) = middle := by
  obtain ⟨c, rest, rfl⟩ := List.exists_cons_of_ne_nil hne
  have hfront : (before ++ (c :: rest) ++ after).dropWhile isWhiteSpace = c :: rest ++ after := by
    rw [List.append_assoc]
    refine dropWhile_isWhiteSpace hb fun x hx => ?_
    obtain rfl : c = x := by simpa using hx
    exact hm c List.mem_cons_self
  have hback : (c :: rest ++ after).reverse.dropWhile isWhiteSpace = (c :: rest).reverse := by
    rw [List.reverse_append]
    refine dropWhile_isWhiteSpace (fun x hx => ha x (List.mem_reverse.1 hx)) fun x hx => ?_
    exact hm x (List.mem_reverse.1 (List.mem_of_mem_head? hx))
  rw [trimChars, hfront, hback, List.reverse_reverse]

theorem ofChars_eq {cs : List Char} (h : trimChars cs ≠ []) :
    ofChars cs = withoutZeros ((trimChars cs).map Char.toLower) := by
  have hne : ((trimChars cs).map Char.toLower).isEmpty = false := by simpa using h
  simp only [ofChars, withoutZeros]
  generalize (trimChars cs).map Char.toLower = lower at hne
  cases lower.dropWhile (· == '0') with
  | nil => simp [hne]
  | cons c rest => rfl

theorem isHexDigit_of_mapM {digits : List Char} {values : List Nat}
    (h : digits.mapM hexValue? = some values) {c : Char} (hc : c ∈ digits) :
    ∃ d, hexValue? c = some d := by
  obtain ⟨hd, ht⟩ := (mapM_hexValue?_iff _ _).1 h
  have hm : c.toLower ∈ values.map Nat.digitChar := ht ▸ List.mem_map_of_mem hc
  obtain ⟨d, hdm, he⟩ := List.mem_map.1 hm
  exact ⟨d, hexValue?_iff.2 ⟨hd d hdm, he.symm⟩⟩

/-- Digits stay digits when white space is trimmed off them. -/
theorem denotes_iff_trimChars (key : String) (n : Nat) :
    Denotes key n ↔ trimChars key.toList ≠ [] ∧
      ∃ values, (trimChars key.toList).mapM hexValue? = some values ∧ numberOf values = n := by
  constructor
  · rintro ⟨before, digits, after, values, hk, hb, ha, hne, hv, hn⟩
    have hm : ∀ c ∈ digits, isWhiteSpace c = false := by
      intro c hc
      obtain ⟨d, hd⟩ := isHexDigit_of_mapM hv hc
      exact not_isWhiteSpace_of_hexValue? hd
    rw [hk, trimChars_append hb ha hm hne]
    exact ⟨hne, values, hv, hn⟩
  · rintro ⟨hne, values, hv, hn⟩
    obtain ⟨before, after, hk, hb, ha⟩ := exists_trimChars key.toList
    exact ⟨before, _, after, values, hk, hb, ha, hne, hv, hn⟩

def spelled (n : Nat) : String := String.ofList (Nat.toDigits 16 n)

theorem ofText_eq_spelled_iff (key : String) (n : Nat) :
    ofText key = spelled n ↔ Denotes key n := by
  rw [denotes_iff_trimChars]
  unfold ofText spelled
  rw [String.ofList_inj]
  constructor
  · intro h
    have hne : trimChars key.toList ≠ [] := by
      intro ht
      simp only [ofChars, ht, List.map_nil, List.dropWhile_nil, List.isEmpty_nil, if_true] at h
      exact Nat.toDigits_ne_nil h.symm
    rw [ofChars_eq hne, withoutZeros_iff] at h
    obtain ⟨values, hd, ht, hn⟩ := h
    exact ⟨hne, values, (mapM_hexValue?_iff _ _).2 ⟨hd, ht⟩, hn⟩
  · rintro ⟨hne, values, hv, hn⟩
    obtain ⟨hd, ht⟩ := (mapM_hexValue?_iff _ _).1 hv
    rw [ofChars_eq hne, withoutZeros_iff]
    exact ⟨values, hd, ht, hn⟩

theorem denotes_spelled (n : Nat) : Denotes (spelled n) n := by
  obtain ⟨digits, hd, ht, hv⟩ := exists_digits n
  have hlower : (digits.map Nat.digitChar).map Char.toLower = digits.map Nat.digitChar := by
    rw [List.map_map]
    exact List.map_congr_left fun d hm => toLower_digitChar (hd d hm)
  refine ⟨[], Nat.toDigits 16 n, [], digits, by simp [spelled], by simp, by simp,
    Nat.toDigits_ne_nil, ?_, hv⟩
  rw [ht]
  exact (mapM_hexValue?_iff _ _).2 ⟨hd, hlower⟩

/-- Whatever the spelling, a key is looked up under a number exactly if it denotes the number. -/
theorem denotes_iff (key : String) (n : Nat) : Denotes key n ↔ ofText key = ofText (spelled n) := by
  rw [(ofText_eq_spelled_iff (spelled n) n).2 (denotes_spelled n), ofText_eq_spelled_iff]

example : ofText "\t00A1b " = spelled 0xa1b := by decide +kernel

end AttestedKey.SerialKey
