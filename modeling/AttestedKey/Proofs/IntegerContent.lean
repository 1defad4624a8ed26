import AttestedKey.Proofs.Values

/-! The content of an INTEGER as a number. It is gathered in 128 bits, which hold 16 octets without
loss (`IsGathered`), and then has to be in the range of the type it is read as (`IsRangeCheck`). So
it is read as its value in two's complement, or refused for its length or its range
(`IsIntegerReading`), and octets in front that say no more than the sign make no difference. -/

namespace AttestedKey

namespace Octets

def signOctet (bs : Octets) : UInt8 := if bs.head?.any (128 ≤ ·.toNat) then 0xFF else 0x00

theorem signOctet_signOctet_cons (bs rest : Octets) :
    signOctet (signOctet bs :: rest) = signOctet bs := by
  unfold signOctet
  by_cases h : bs.head?.any (128 ≤ ·.toNat)
  · simp only [if_pos h]
    rfl
  · simp only [if_neg h]
    rfl

theorem toInt_signOctet_cons (bs : Octets) : toInt (signOctet bs :: bs) = toInt bs := by
  have hsame : sign (signOctet bs :: bs) = sign bs ∧
    256 * sign bs + (signOctet bs).toNat = sign bs := by
    unfold sign signOctet
    by_cases h : bs.head?.any (128 ≤ ·.toNat)
    · simp only [if_pos h]
      exact ⟨rfl, rfl⟩
    · simp only [if_neg h]
      exact ⟨rfl, rfl⟩
  obtain ⟨hsign, htop⟩ := hsame
  calc toInt (signOctet bs :: bs)
      = (256 * sign bs + (signOctet bs).toNat) * 256 ^ bs.length + toNat bs := by
        rw [toInt_eq, hsign, toNat_cons, List.length_cons]
        push_cast
        ring
    _ = toInt bs := by rw [htop, toInt_eq]

theorem signOctet_replicate_append (n : Nat) (bs : Octets) :
    signOctet (List.replicate n (signOctet bs) ++ bs) = signOctet bs := by
  cases n with
  | zero => rfl
  | succ n => exact signOctet_signOctet_cons bs _

theorem toInt_replicate_append (n : Nat) (bs : Octets) :
    toInt (List.replicate n (signOctet bs) ++ bs) = toInt bs := by
  induction n with
  | zero => rfl
  | succ n ih =>
    have hcons := toInt_signOctet_cons (List.replicate n (signOctet bs) ++ bs)
    rw [signOctet_replicate_append] at hcons
    rw [List.replicate_succ, List.cons_append, hcons, ih]

/-- Octet after octet, the bits hold the number so far, and none of the bits that go is needed. -/
structure IsGathered (content : Octets) : Prop where
  step : ∀ front b back, content = front ++ b :: back →
    (shiftIn (front.foldl shiftIn (signBits content)) b).toInt =
      256 * (front.foldl shiftIn (signBits content)).toInt + b.toNat
  reached : ∀ front back, content = front ++ back → front ≠ [] →
    (front.foldl shiftIn (signBits content)).toInt = toInt front
  whole : (toInt128 content).toInt = toInt content

theorem isGathered {content : Octets} (hlen : content.length ≤ 16) : IsGathered content where
  step := by
    rintro front b back rfl
    rw [List.length_append, List.length_cons] at hlen
    refine toInt_shiftIn ?_ b
    rw [toInt_foldl_shiftIn (b :: back) (by omega)]
    exact gathered_bounds (b :: back) (by omega)
  reached := by
    rintro front back rfl hne
    rw [List.length_append] at hlen
    exact toInt_foldl_shiftIn_of_ne_nil hne back (by omega)
  whole := toInt_toInt128 hlen

end Octets

/-- The numbers from `low` up to `high`, which is not among them, are taken, and others are told to
be out of range. -/
structure IsRangeCheck {α : Type} (value : α → Int) (low high : Int) (what : String)
    (check : Int → Decoded α) : Prop where
  ok_iff : ∀ n v, (∃ x, check n = .ok x ∧ value x = v) ↔ n = v ∧ low ≤ v ∧ v < high
  outOfRange : ∀ n, ¬ (low ≤ n ∧ n < high) → check n = .error (outOfRange what n)

theorem isRangeCheck_asInt64 (what : String) :
    IsRangeCheck Int64.toInt (-0x8000000000000000) 0x8000000000000000 what (asInt64 what) where
  ok_iff n v := by
    simp only [asInt64_eq_ok_iff]
    constructor
    · rintro ⟨x, rfl, rfl⟩
      exact ⟨rfl, x.le_toInt, x.toInt_lt⟩
    · rintro ⟨rfl, hlow, hhigh⟩
      have hvalue := Int64.toInt_ofInt_of_le hlow hhigh
      exact ⟨Int64.ofInt n, hvalue.symm, hvalue⟩
  outOfRange n h := by rw [asInt64, int64?, if_neg h]

theorem isRangeCheck_asUInt64 (what : String) :
    IsRangeCheck (fun x : UInt64 => x.toNat) 0 0x10000000000000000 what (asUInt64 what) where
  ok_iff n v := by
    simp only [asUInt64_eq_ok_iff]
    constructor
    · rintro ⟨x, rfl, rfl⟩
      have hhigh := x.toNat_lt
      exact ⟨rfl, by omega, by omega⟩
    · rintro ⟨rfl, hlow, hhigh⟩
      have hvalue : ((UInt64.ofNat n.toNat).toNat : Int) = n := by
        rw [UInt64.toNat_ofNat']
        omega
      exact ⟨UInt64.ofNat n.toNat, hvalue.symm, hvalue⟩
  outOfRange n h := by rw [asUInt64, uint64?, if_neg h]

namespace Ber.Object

open Octets (toInt signOctet IsGathered)

/-- An INTEGER is read as its value in two's complement, exactly or not at all. -/
structure IsIntegerReading {α : Type} (value : α → Int) (low high : Int) (what : String)
    (reading : Object → Decoded α) : Prop where
  ok_iff : ∀ content v, (∃ x, reading (integer content) = .ok x ∧ value x = v) ↔
    (1 ≤ content.length ∧ content.length ≤ 16) ∧ toInt content = v ∧ low ≤ v ∧ v < high
  malformed : ∀ content, ¬ (1 ≤ content.length ∧ content.length ≤ 16) →
    reading (integer content) = .error (.malformed s!"{what}: integer of {content.length} bytes")
  typeMismatch : ∀ content, 1 ≤ content.length → content.length ≤ 16 →
    ¬ (low ≤ toInt content ∧ toInt content < high) →
    reading (integer content) = .error (.typeMismatch s!"{what}: {toInt content} out of range")
  padded : ∀ n content, content ≠ [] → n + content.length ≤ 16 →
    reading (integer (List.replicate n (signOctet content) ++ content)) = reading (integer content)

theorem isIntegerReading_of_isRangeCheck {α : Type} {value : α → Int} {low high : Int}
    {what : String} {check : Int → Decoded α} (h : IsRangeCheck value low high what check) :
    IsIntegerReading value low high what fun x => x.asNumber what >>= check := by
  have htaken : ∀ content : Octets, 1 ≤ content.length ∧ content.length ≤ 16 →
      (integer content).asNumber what >>= check = check (toInt content) := by
    intro content hlength
    rw [asNumber_integer, if_pos hlength]
    rfl
  have hrefused : ∀ content : Octets, ¬ (1 ≤ content.length ∧ content.length ≤ 16) →
      (integer content).asNumber what >>= check =
        .error (.malformed s!"{what}: integer of {content.length} bytes") := by
    intro content hlength
    rw [asNumber_integer, if_neg hlength]
    rfl
  refine ⟨fun content v => ?_, hrefused, fun content hlow hhigh hrange => ?_,
    fun n content hne hlength => ?_⟩
  · by_cases hlength : 1 ≤ content.length ∧ content.length ≤ 16
    · simp only [htaken content hlength, h.ok_iff, hlength, and_self, true_and]
    · simp [hrefused content hlength, hlength]
  · exact (htaken content ⟨hlow, hhigh⟩).trans (h.outOfRange _ hrange)
  · have hpos : 0 < content.length := List.length_pos_iff.2 hne
    have hall : (List.replicate n (signOctet content) ++ content).length = n + content.length := by
      rw [List.length_append, List.length_replicate]
    rw [htaken content ⟨hpos, by omega⟩, htaken _ ⟨by omega, by omega⟩,
      Octets.toInt_replicate_append]

/-- As a signed and as an unsigned number of 64 bits an INTEGER of any content is read exactly or
refused, and on the way there is room for all that can come. -/
theorem integer_isReadExactly (what : String) :
    IsIntegerReading Int64.toInt (-0x8000000000000000) 0x8000000000000000 what (asInt what) ∧
      IsIntegerReading (fun x : UInt64 => x.toNat) 0 0x10000000000000000 what (asUInt what) ∧
      ∀ content : Octets, content.length ≤ 16 → IsGathered content :=
  ⟨isIntegerReading_of_isRangeCheck (isRangeCheck_asInt64 what),
    isIntegerReading_of_isRangeCheck (isRangeCheck_asUInt64 what),
    fun _ hlen => Octets.isGathered hlen⟩

def wide : Octets := [0, 0, 0, 0, 0, 0, 0, 0, 0x80, 0, 0, 0, 0, 0, 0, 0]

/-- One more than the largest signed number is an unsigned one, whatever octets fill it up. -/
theorem wide_isReadExactly :
    (∃ x, (integer wide).asUInt "int" = .ok x ∧ (x.toNat : Int) = 0x8000000000000000) ∧
      (integer wide).asUInt "int" = (integer (wide.drop 7)).asUInt "int" ∧
      (integer wide).asInt "int" = .error (outOfRange "int" 0x8000000000000000) ∧
      (integer (0 :: wide)).asUInt "int" = .error (.malformed "int: integer of 17 bytes") ∧
      (wide.toInt128).toInt = 0x8000000000000000 := by
  obtain ⟨hint, huint, hgathered⟩ := integer_isReadExactly "int"
  have hvalue : toInt wide = 0x8000000000000000 := by decide
  exact ⟨(huint.ok_iff wide _).2 ⟨by decide, hvalue, by decide⟩,
    huint.padded 7 (wide.drop 7) (by decide) (by decide), hvalue ▸ hint.typeMismatch wide
    (by decide) (by decide) (by decide), huint.malformed (0 :: wide) (by decide),
    (hgathered wide (by decide)).whole.trans hvalue⟩

end Ber.Object

end AttestedKey
