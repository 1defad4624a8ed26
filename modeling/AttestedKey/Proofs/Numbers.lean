import AttestedKey.Der.Writer
import Mathlib.Data.List.Induction
import Mathlib.Tactic.Ring

/-! Numbers as octets: what is written for a number, in a given number of octets or in the fewest,
reads as the number again, and so does the content of an INTEGER, whose first bit is its sign. Up
to 16 octets can be gathered in 128 bits: these hold, after every octet, the number that the octets
so far are in two's complement (`toInt_foldl_shiftIn`). -/

namespace AttestedKey

namespace Octets

theorem toNat_append_singleton (bs : Octets) (b : UInt8) :
    toNat (bs ++ [b]) = toNat bs * 256 + b.toNat := by
  simp only [toNat, List.foldl_append, List.foldl_cons, List.foldl_nil]

theorem toNat_cons (b : UInt8) (bs : Octets) :
    toNat (b :: bs) = b.toNat * 256 ^ bs.length + toNat bs := by
  induction bs using List.reverseRecOn with
  | nil => simp [toNat]
  | append_singleton bs c ih =>
    rw [← List.cons_append, toNat_append_singleton, toNat_append_singleton, ih, List.length_append,
      List.length_singleton, pow_succ]
    ring

theorem length_ofNat (width n : Nat) : (ofNat width n).length = width := by
  induction width generalizing n with
  | zero => rfl
  | succ width ih => rw [ofNat, List.length_append, ih, List.length_singleton]

theorem toNat_ofNat (width n : Nat) : toNat (ofNat width n) = n % 256 ^ width := by
  induction width generalizing n with
  | zero => simp [ofNat, toNat, Nat.mod_one]
  | succ width ih =>
    have hsplit : n % 256 ^ (width + 1) = n % 256 + 256 * (n / 256 % 256 ^ width) := by
      rw [pow_succ, mul_comm, Nat.mod_mul]
    rw [ofNat, toNat_append_singleton, ih, UInt8.toNat_ofNat', hsplit]
    omega

theorem lt_pow_width (n : Nat) : n < 256 ^ width n := by
  unfold width
  split
  · next h => simp [h]
  · calc
      n < 2 ^ (n.log2 + 1) := Nat.lt_log2_self
      _ ≤ 2 ^ (8 * (n.log2 / 8 + 1)) := Nat.pow_le_pow_right (by decide) (by omega)
      _ = 256 ^ (n.log2 / 8 + 1) := by rw [pow_mul]; rfl

theorem width_le {n k : Nat} (h : n < 256 ^ k) : width n ≤ k := by
  unfold width
  split
  · exact Nat.zero_le k
  · next hn =>
    have hlog : n.log2 < 8 * k := by
      rw [Nat.log2_lt hn, pow_mul]
      exact h
    omega

theorem length_ofNatMinimal (n : Nat) : (ofNatMinimal n).length = width n := length_ofNat _ _

theorem toNat_ofNatMinimal (n : Nat) : toNat (ofNatMinimal n) = n := by
  rw [ofNatMinimal, toNat_ofNat, Nat.mod_eq_of_lt (lt_pow_width n)]

def complement (bs : Octets) : Octets := bs.map (~~~ ·)

theorem toNat_complement (bs : Octets) :
    toNat (complement bs) + toNat bs + 1 = 256 ^ bs.length := by
  induction bs with
  | nil => rfl
  | cons b bs ih =>
    have hb : (~~~ b).toNat = 255 - b.toNat := by
      rw [UInt8.toNat_not]
      rfl
    have hlt : b.toNat < 256 := b.toNat_lt
    have hlen : (complement bs).length = bs.length := List.length_map ..
    have hsum : (255 - b.toNat) * 256 ^ bs.length + b.toNat * 256 ^ bs.length =
      255 * 256 ^ bs.length := by
      rw [← add_mul]
      congr 1
      omega
    change toNat ((~~~ b) :: complement bs) + toNat (b :: bs) + 1 = _
    rw [toNat_cons, toNat_cons, hb, hlen, List.length_cons, pow_succ]
    omega

theorem toNat_lt (bs : Octets) : toNat bs < 256 ^ bs.length := by
  have := toNat_complement bs
  omega

/-- The value in two's complement, most significant octet first. -/
def toInt (bs : Octets) : Int :=
  if bs.head?.any (128 ≤ ·.toNat) then (toNat bs : Int) - (1 <<< (8 * bs.length) : Nat)
    else toNat bs

theorem toInt_of_head_lt {b : UInt8} {bs : Octets} (h : b < 0x80) :
    toInt (b :: bs) = toNat (b :: bs) := by
  have hb : ¬ 128 ≤ b.toNat := by
    have := UInt8.lt_iff_toNat_lt.1 h
    simpa using this
  simp [toInt, hb]

theorem toInt_complement {b : UInt8} {bs : Octets} (h : b < 0x80) :
    toInt (complement (b :: bs)) = -1 - toNat (b :: bs) := by
  have hb : 128 ≤ (~~~ b).toNat := by
    have := UInt8.lt_iff_toNat_lt.1 h
    rw [UInt8.toNat_not]
    change b.toNat < 128 at this
    change 128 ≤ 255 - b.toNat
    omega
  have hsum := toNat_complement (b :: bs)
  have hlen : (complement (b :: bs)).length = (b :: bs).length := List.length_map ..
  have hpow : 2 ^ (8 * (b :: bs).length) = 256 ^ (b :: bs).length := by
    rw [pow_mul]
    rfl
  have hhead : (complement (b :: bs)).head?.any (128 ≤ ·.toNat) = true := by
    simpa [complement] using hb
  rw [toInt, if_pos hhead, hlen, Nat.one_shiftLeft, hpow]
  omega

def sign (bs : Octets) : Int := if bs.head?.any (128 ≤ ·.toNat) then -1 else 0

theorem sign_append {front : Octets} (hne : front ≠ []) (back : Octets) :
    sign (front ++ back) = sign front := by
  obtain ⟨b, front, rfl⟩ := List.exists_cons_of_ne_nil hne
  rfl

theorem toInt_eq (bs : Octets) : toInt bs = sign bs * 256 ^ bs.length + toNat bs := by
  have hpow : 1 <<< (8 * bs.length) = 256 ^ bs.length := by
    rw [Nat.one_shiftLeft, pow_mul]
    rfl
  unfold toInt sign
  split
  · rw [hpow, Nat.cast_pow, Nat.cast_ofNat]
    ring
  · ring

/-- The first bit is the sign. -/
theorem toInt_bounds {bs : Octets} (hne : bs ≠ []) :
    -(256 ^ bs.length : Nat) ≤ 2 * toInt bs ∧ 2 * toInt bs < (256 ^ bs.length : Nat) := by
  obtain ⟨b, bs, rfl⟩ := List.exists_cons_of_ne_nil hne
  have hrest := toNat_lt bs
  have hoctet : b.toNat < 256 := b.toNat_lt
  have hpow : 256 ^ (b :: bs).length = 256 ^ bs.length * 256 := pow_succ ..
  have hvalue : toInt (b :: bs) = (256 * sign (b :: bs) + b.toNat) * (256 ^ bs.length : Nat) +
    toNat bs := by
    rw [toInt_eq, toNat_cons, List.length_cons]
    push_cast
    ring
  have hsign : -128 ≤ 256 * sign (b :: bs) + b.toNat ∧ 256 * sign (b :: bs) + b.toNat ≤ 127 := by
    simp only [sign, List.head?_cons, Option.any_some, decide_eq_true_eq]
    split <;> omega
  rw [hvalue, hpow]
  have hlow := Int.mul_le_mul_of_nonneg_right hsign.1 (Int.natCast_nonneg (256 ^ bs.length))
  have hhigh := Int.mul_le_mul_of_nonneg_right hsign.2 (Int.natCast_nonneg (256 ^ bs.length))
  generalize (256 * sign (b :: bs) + b.toNat) * (256 ^ bs.length : Nat) = top at hlow hhigh
  omega

/-! ### Gathering octets in 128 bits -/

theorem toInt_signBits (bs : Octets) : (signBits bs).toInt = sign bs := by
  have hbit : ∀ n : Fin 256, (UInt8.ofFin n &&& 0x80 != 0) =
    decide (128 ≤ (UInt8.ofFin n).toNat) := by decide +kernel
  have hfirst : (fun b : UInt8 => b &&& 0x80 != 0) = fun b => decide (128 ≤ b.toNat) :=
    funext fun b => hbit b.toFin
  unfold signBits sign
  rw [hfirst]
  split <;> rfl

theorem toNat_shiftIn (x : BitVec 128) (b : UInt8) :
    (shiftIn x b).toNat = 256 * (x.toNat % 0x1000000000000000000000000000000) + b.toNat := by
  have hshift : (x <<< 8).toNat = 256 * (x.toNat % 0x1000000000000000000000000000000) := by
    rw [BitVec.toNat_shiftLeft, Nat.shiftLeft_eq]
    omega
  have hoctet : (b.toBitVec.setWidth 128).toNat = b.toNat := by
    rw [BitVec.toNat_setWidth, UInt8.toNat_toBitVec]
    have := b.toNat_lt
    omega
  rw [shiftIn, BitVec.toNat_or, hshift, hoctet]
  exact (Nat.two_pow_add_eq_or_of_lt (i := 8) b.toNat_lt _).symm

/-- Nothing is lost as long as the eight bits that go, and the one below them, are all like the
sign. -/
theorem toInt_shiftIn {x : BitVec 128}
    (h : -0x800000000000000000000000000000 ≤ x.toInt ∧ x.toInt < 0x800000000000000000000000000000)
    (b : UInt8) : (shiftIn x b).toInt = 256 * x.toInt + b.toNat := by
  have hoctet : b.toNat < 256 := b.toNat_lt
  have hx := x.isLt
  rw [BitVec.toInt_eq_toNat_cond] at h ⊢
  rw [BitVec.toInt_eq_toNat_cond, toNat_shiftIn]
  split at h <;> split <;> omega

/-- Fewer than 16 octets leave room for one more. -/
theorem gathered_bounds {front : Octets} (back : Octets) (hlen : front.length < 16) :
    -0x800000000000000000000000000000 ≤ sign (front ++ back) * 256 ^ front.length + toNat front ∧
      sign (front ++ back) * 256 ^ front.length + toNat front <
        0x800000000000000000000000000000 := by
  by_cases hne : front = []
  · subst hne
    simp only [sign, List.length_nil, pow_zero]
    split <;> decide
  · obtain ⟨hlow, hhigh⟩ := toInt_bounds hne
    have hpow : 256 ^ front.length ≤ 0x1000000000000000000000000000000 :=
      Nat.pow_le_pow_right (by decide) (show front.length ≤ 15 by omega)
    rw [sign_append hne, ← toInt_eq]
    omega

/-- The octets so far, below the sign of all of them. -/
theorem toInt_foldl_shiftIn {front : Octets} (back : Octets) (hlen : front.length ≤ 16) :
    (front.foldl shiftIn (signBits (front ++ back))).toInt =
      sign (front ++ back) * 256 ^ front.length + toNat front := by
  induction front using List.reverseRecOn generalizing back with
  | nil => simp [toInt_signBits, toNat]
  | append_singleton front b ih =>
    rw [List.length_append, List.length_singleton] at hlen
    have hbounds := gathered_bounds (b :: back) (show front.length < 16 by omega)
    have hsofar := ih (b :: back) (by omega)
    rw [← hsofar] at hbounds
    rw [List.append_assoc, List.singleton_append, List.foldl_append, List.foldl_cons,
      List.foldl_nil, toInt_shiftIn hbounds, hsofar, toNat_append_singleton, List.length_append,
      List.length_singleton, pow_succ]
    push_cast
    ring

theorem toInt_foldl_shiftIn_of_ne_nil {front : Octets} (hne : front ≠ []) (back : Octets)
    (hlen : front.length ≤ 16) :
    (front.foldl shiftIn (signBits (front ++ back))).toInt = toInt front := by
  rw [toInt_foldl_shiftIn back hlen, sign_append hne, toInt_eq]

theorem toInt_toInt128 {bs : Octets} (hlen : bs.length ≤ 16) : (toInt128 bs).toInt = toInt bs := by
  have hall := toInt_foldl_shiftIn [] hlen
  rw [List.append_nil] at hall
  rw [toInt128, hall, toInt_eq]

end Octets

namespace Der

open Octets

theorem naturalContent_spec (n : Nat) :
    ∃ b bs, naturalContent n = b :: bs ∧ b < 0x80 ∧ toNat (b :: bs) = n ∧
      (b :: bs).length ≤ width n + 1 := by
  have hn := toNat_ofNatMinimal n
  have hlen := length_ofNatMinimal n
  unfold naturalContent
  split
  · next h =>
    rw [h] at hn
    exact ⟨0, [], rfl, by decide, hn, by simp⟩
  · next b bs h =>
    rw [h] at hn hlen
    split
    · next hb => exact ⟨b, bs, rfl, hb, hn, by omega⟩
    · exact ⟨0, b :: bs,
        rfl, by decide, by rw [toNat_cons, hn]; simp, by rw [List.length_cons, hlen]⟩

/-- Content of the INTEGER `n` in two's complement. A negative number has the bits of `-1 - n` the
other way. -/
def integerContent (n : Int) : Octets :=
  if 0 ≤ n then naturalContent n.toNat else complement (naturalContent (-1 - n).toNat)

theorem toInt_integerContent (n : Int) : toInt (integerContent n) = n := by
  unfold integerContent
  split
  · next h =>
    obtain ⟨b, bs, hc, hb, hn, -⟩ := naturalContent_spec n.toNat
    rw [hc, toInt_of_head_lt hb, hn]
    omega
  · next h =>
    obtain ⟨b, bs, hc, hb, hn, -⟩ := naturalContent_spec (-1 - n).toNat
    rw [hc, toInt_complement hb, hn]
    omega

theorem length_integerContent {n : Int} (h : -0x10000000000000000 ≤ n ∧ n < 0x10000000000000000) :
    1 ≤ (integerContent n).length ∧ (integerContent n).length ≤ 9 := by
  have hnatural : ∀ m : Nat, m < 0x10000000000000000 →
      1 ≤ (naturalContent m).length ∧ (naturalContent m).length ≤ 9 := by
    intro m hm
    obtain ⟨b, bs, hc, -, -, hlen⟩ := naturalContent_spec m
    have hw : width m ≤ 8 := width_le hm
    rw [hc]
    exact ⟨Nat.succ_pos _, by omega⟩
  unfold integerContent
  split
  · exact hnatural _ (by omega)
  · rw [complement, List.length_map]
    exact hnatural _ (by omega)

end Der

end AttestedKey
