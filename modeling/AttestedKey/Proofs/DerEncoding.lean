import AttestedKey.Proofs.Numbers
import AttestedKey.Proofs.Values
import Mathlib.Data.Nat.Digits.Lemmas
import Mathlib.Data.List.Forall2

/-! Reading what has been written with definite lengths. `Reader.Takes` says that a reader takes
exactly some octets off the front of any others, and so a list of such parts reads part by part
(`all_flatten`). `Ber.Encodes` says it of the object reader for octets that a length can count;
there is one lemma for each way of writing an object. Explicit tags are the one place where not
every number is read as written: the reader keeps tag numbers in 32 bits, and takes at most five
digits for one. -/

namespace AttestedKey

namespace Reader

variable {α β : Type} {item : Reader α}

/-- Whatever follows, the reader takes the octets and gives the value, or fails if there is none. -/
def Takes (item : Reader α) (bs : Octets) (x : Option α) : Prop :=
  bs ≠ [] ∧ ∀ rest, item (bs ++ rest) = x.map fun a => (a, rest)

theorem allWithin_cons (n : Nat) (found : List α) (b : UInt8) (bs : Octets) :
    allWithin item (n + 1) found (b :: bs) =
      (item (b :: bs)).bind fun p => allWithin item n (p.1 :: found) p.2 := by
  simp only [allWithin]
  cases item (b :: bs) <;> rfl

theorem allWithin_flatten {parts : List Octets} {xs : List (Option α)}
    (h : List.Forall₂ (Takes item) parts xs) {n : Nat} (hn : parts.flatten.length ≤ n)
    (found : List α) :
    allWithin item n found parts.flatten = (xs.mapM id).map (found.reverse ++ ·) := by
  induction h generalizing n found with
  | nil => cases n <;> simp [allWithin]
  -- no part is empty, so the octets that are left bound the parts that are left
  | @cons bs x parts xs hbs _ ih =>
    obtain ⟨hne, htake⟩ := hbs
    obtain ⟨b, bs, rfl⟩ := List.exists_cons_of_ne_nil hne
    simp only [List.flatten_cons, List.length_append, List.length_cons] at hn
    obtain ⟨m, rfl⟩ : ∃ m, n = m + 1 := ⟨n - 1, by omega⟩
    rw [List.flatten_cons, List.cons_append, allWithin_cons, ← List.cons_append, htake,
      List.mapM_cons]
    cases x with
    | none => rfl
    | some a =>
      change allWithin item m (a :: found) parts.flatten = _
      rw [ih (by omega)]
      cases xs.mapM id <;> simp

theorem all_flatten {parts : List Octets} {xs : List (Option α)}
    (h : List.Forall₂ (Takes item) parts xs) : all item parts.flatten = xs.mapM id := by
  rw [all, allWithin_flatten h le_rfl]
  cases xs.mapM id <;> rfl

theorem Takes.readWhole {bs : Octets} {x : Option α} (h : Takes item bs x) (what : String) :
    (readWhole item what bs).toOption = x := by
  have hread := h.2 []
  rw [List.append_nil] at hread
  unfold AttestedKey.readWhole
  rw [hread]
  cases x <;> rfl

end Reader

namespace Der

/-- A number in base 128, every digit but the last with its high bit set. -/
def tagOctets (n : Nat) : Octets :=
  (Nat.digits 128 (n / 128)).reverse.map (fun d => UInt8.ofNat (128 + d)) ++ [UInt8.ofNat (n % 128)]

def contextIdentifier (n : Nat) : Octets :=
  if n < 31 then [UInt8.ofNat (0xA0 + n)] else 0xBF :: tagOctets n

def writeExplicit (n : Nat) (content : Octets) : Octets :=
  contextIdentifier n ++ (writeLength content.length ++ content)

def writeSet (parts : List Octets) : Octets := write 0x31 parts.flatten

def writeInteger (n : Int) : Octets := write 0x02 (integerContent n)

def writeOctets (content : Octets) : Octets := write 0x04 content

def writeBool (b : Bool) : Octets := write 0x01 [if b then 0xFF else 0x00]

def writeEnumerated (n : Nat) : Octets := write 0x0A [UInt8.ofNat n]

end Der

namespace Ber

open Reader (Takes)

/-! ### Headers -/

theorem length_writeLength {n : Nat} (h : n < 0x10000000000000000) (rest : Octets) :
    length (Der.writeLength n ++ rest) = some (some n, rest) := by
  unfold Der.writeLength
  by_cases hn : n < 128
  · have hnat : (UInt8.ofNat n).toNat = n := by rw [UInt8.toNat_ofNat']; omega
    have hb : UInt8.ofNat n < 0x80 := UInt8.lt_iff_toNat_lt.2 (by rw [hnat]; exact hn)
    rw [if_pos hn, List.singleton_append, length, if_pos hb, hnat]
  · have hw : Octets.width n ≤ 8 := Octets.width_le h
    have hpos : Octets.width n ≠ 0 := by
      intro h0
      have := Octets.lt_pow_width n
      rw [h0] at this
      omega
    have hnat : (UInt8.ofNat (128 + Octets.width n)).toNat = 128 + Octets.width n := by
      rw [UInt8.toNat_ofNat']
      omega
    have hlong : ∀ b : UInt8, b.toNat ≠ 128 + Octets.width n →
      UInt8.ofNat (128 + Octets.width n) ≠ b :=
      fun b hb heq => hb (by rw [← heq, hnat])
    have hlt : ¬ UInt8.ofNat (128 + Octets.width n) < 0x80 := by
      rw [UInt8.lt_iff_toNat_lt, hnat]
      change ¬ 128 + Octets.width n < 128
      omega
    have hsplit := Octets.split?_append (Octets.ofNatMinimal n) rest
    rw [Octets.length_ofNatMinimal] at hsplit
    rw [if_neg hn, List.cons_append, length, if_neg hlt,
      if_neg (hlong 0x80 (by change 128 ≠ _; omega)),
      if_neg (hlong 0xFF (by change 255 ≠ _; omega)), hnat, Nat.add_sub_cancel_left, hsplit]
    change (if Octets.toNat (Octets.ofNatMinimal n) < _ then _ else _) = _
    rw [Octets.toNat_ofNatMinimal, if_pos h]

theorem header_write {lead : UInt8} (hlead : lead.toNat % 32 ≠ 31) {content : Octets}
    (h : content.length < 0x10000000000000000) (rest : Octets) :
    header (Der.write lead content ++ rest) =
      some (⟨tagClass lead, lead.toNat / 32 % 2 = 1, lead.toNat % 32, some content.length⟩,
        content ++ rest) := by
  rw [Der.write, List.cons_append, List.append_assoc, header, tagNumber, if_neg hlead]
  change (length _ >>= _) = _
  rw [length_writeLength h]
  simp

theorem tagDigits_append (digits : List Nat) (hdigits : ∀ d ∈ digits, d < 128) (last : UInt8)
    (hlast : last < 0x80) (rest : Octets) (left high value : Nat)
    (hhigh : high ≡ value [MOD 0x100000000]) :
    tagDigits left high (digits.map (fun d => UInt8.ofNat (128 + d)) ++ last :: rest) =
      if digits.length < left then
        some ((digits.foldl (fun n d => n * 128 + d) value * 128 + last.toNat) % 0x100000000, rest)
      else none := by
  -- the reader keeps 32 bits after every digit, so what it has so far is the value modulo 2 ^ 32
  -- only
  induction digits generalizing left high value with
  | nil =>
    cases left with
    | zero => rfl
    | succ left =>
      have hnat : last.toNat % 128 = last.toNat := Nat.mod_eq_of_lt (UInt8.lt_iff_toNat_lt.1 hlast)
      rw [List.map_nil, List.nil_append, tagDigits, if_pos hlast, hnat]
      exact congrArg (fun n => some (n, rest)) ((hhigh.mul_right 128).add_right last.toNat)
  | cons d digits ih =>
    cases left with
    | zero => rfl
    | succ left =>
      have hd : d < 128 := hdigits d List.mem_cons_self
      have hnat : (UInt8.ofNat (128 + d)).toNat = 128 + d := by rw [UInt8.toNat_ofNat']; omega
      have hmore : ¬ UInt8.ofNat (128 + d) < 0x80 := by
        rw [UInt8.lt_iff_toNat_lt, hnat]
        change ¬ 128 + d < 128
        omega
      have hdigit : (UInt8.ofNat (128 + d)).toNat % 128 = d := by omega
      have hnext : (high * 128 + d) % 0x100000000 ≡ value * 128 + d [MOD 0x100000000] :=
        (Nat.mod_modEq _ _).trans ((hhigh.mul_right 128).add_right d)
      rw [List.map_cons, List.cons_append, tagDigits, if_neg hmore, hdigit,
        ih (fun e he => hdigits e (List.mem_cons_of_mem _ he)) left _ _ hnext]
      simp

def tagNumber? (n : Nat) : Option Nat := if n < 0x800000000 then some (n % 0x100000000) else none

theorem tagDigits_tagOctets (n : Nat) (rest : Octets) :
    tagDigits 5 0 (Der.tagOctets n ++ rest) = (tagNumber? n).map fun n => (n, rest) := by
  have hlast : UInt8.ofNat (n % 128) < 0x80 := by
    rw [UInt8.lt_iff_toNat_lt, UInt8.toNat_ofNat']
    change n % 128 % 256 < 128
    omega
  have hdigits : ∀ d ∈ (Nat.digits 128 (n / 128)).reverse, d < 128 :=
    fun d hd => Nat.digits_lt_base (by decide) (List.mem_reverse.1 hd)
  have hvalue : (Nat.digits 128 (n / 128)).reverse.foldl (fun n d => n * 128 + d) 0 = n / 128 := by
    rw [List.foldl_reverse]
    conv_rhs => rw [← Nat.ofDigits_digits 128 (n / 128), Nat.ofDigits_eq_foldr]
    congr 1
    funext d m
    rw [Nat.cast_id, add_comm, mul_comm]
  have hlength : (Nat.digits 128 (n / 128)).length < 5 ↔ n < 0x800000000 := by
    rw [Nat.lt_succ_iff, Nat.digits_length_le_iff (by decide)]
    omega
  have hnat : (UInt8.ofNat (n % 128)).toNat = n % 128 := by rw [UInt8.toNat_ofNat']; omega
  rw [Der.tagOctets, List.append_assoc, List.singleton_append,
    tagDigits_append _ hdigits _ hlast _ _ _ 0 rfl, hvalue, hnat, List.length_reverse,
    Nat.div_add_mod', tagNumber?]
  by_cases hn : n < 0x800000000
  · rw [if_pos (hlength.2 hn), if_pos hn, Option.map_some]
  · rw [if_neg fun hl => hn (hlength.1 hl), if_neg hn, Option.map_none]

theorem header_writeExplicit (n : Nat) {content : Octets} (h : content.length < 0x10000000000000000)
    (rest : Octets) :
    header (Der.writeExplicit n content ++ rest) =
      (tagNumber? n).map fun n => (⟨.context, true, n, some content.length⟩, content ++ rest) := by
  unfold Der.writeExplicit Der.contextIdentifier
  by_cases hn : n < 31
  · have hnat : (UInt8.ofNat (0xA0 + n)).toNat = 0xA0 + n := by rw [UInt8.toNat_ofNat']; omega
    have hlead : (UInt8.ofNat (0xA0 + n)).toNat % 32 ≠ 31 := by omega
    have hclass : tagClass (UInt8.ofNat (0xA0 + n)) = .context := by
      rw [tagClass, hnat, show (0xA0 + n) / 64 = 2 by omega]
      rfl
    have hread := header_write hlead h rest
    rw [hclass, hnat, show (0xA0 + n) / 32 % 2 = 1 by omega, show (0xA0 + n) % 32 = n by omega]
      at hread
    rw [if_pos hn, List.singleton_append]
    refine hread.trans ?_
    rw [tagNumber?, if_pos (by omega), Nat.mod_eq_of_lt (by omega), Option.map_some]
    simp
  · rw [if_neg hn, List.cons_append, List.cons_append, List.append_assoc, List.append_assoc,
      header, tagNumber, if_pos (by decide), tagDigits_tagOctets]
    cases tagNumber? n with
    | none => rfl
    | some m =>
      change (length _ >>= _) = _
      rw [length_writeLength h]
      rfl

/-! ### Objects -/

/-- Octets that a length can count are read as the object, or not at all if there is none. -/
def Encodes (depth : Nat) (bs : Octets) (x : Option Object) : Prop :=
  bs.length < 0x10000000000000000 → Takes (object depth) bs x

theorem length_content_lt {lead : UInt8} {content : Octets}
    (h : (Der.write lead content).length < 0x10000000000000000) :
    content.length < 0x10000000000000000 := by
  simp only [Der.write, List.length_cons, List.length_append] at h
  omega

theorem length_part_lt {parts : List Octets}
    (h : (Der.writeSequence parts).length < 0x10000000000000000) {part : Octets}
    (hpart : part ∈ parts) : part.length < 0x10000000000000000 :=
  Nat.lt_of_le_of_lt (List.sublist_flatten_of_mem hpart).length_le (length_content_lt h)

theorem length_explicit_lt {n : Nat} {content : Octets}
    (h : (Der.writeExplicit n content).length < 0x10000000000000000) :
    content.length < 0x10000000000000000 := by
  simp only [Der.writeExplicit, List.length_append] at h
  omega

theorem content_append (depth : Nat) (tagClass : TagClass) (constructed : Bool) (tag : Nat)
    (bs rest : Octets) :
    content (depth + 1) ⟨tagClass, constructed, tag, some bs.length⟩ (bs ++ rest) =
      some (bs, rest) := by
  change (if depth + 1 = 0 then none else Octets.split? bs.length (bs ++ rest)) = _
  rw [if_neg (Nat.succ_ne_zero depth), Octets.split?_append]

/-- A universal object that is neither a SEQUENCE nor a SET. -/
theorem encodes_leaf (depth : Nat) {lead : UInt8} (hclass : tagClass lead = .universal)
    (hlead : lead.toNat % 32 ≠ 31 ∧ lead.toNat % 32 ≠ 16 ∧ lead.toNat % 32 ≠ 17)
    (content : Octets) :
    Encodes (depth + 1) (Der.write lead content)
      (leaf? ⟨.universal, lead.toNat / 32 % 2 = 1, lead.toNat % 32,
        some content.length⟩ content) := by
  intro h
  refine ⟨List.cons_ne_nil _ _, fun rest => ?_⟩
  rw [object, header_write hlead.1 (length_content_lt h), hclass]
  have hleaf : ¬ (lead.toNat % 32 = 16 ∨ lead.toNat % 32 = 17) := not_or.2 hlead.2
  simp only [Option.bind_eq_bind, Option.bind_some, ne_eq, not_true_eq_false, if_false,
    if_neg hleaf, content_append]
  cases leaf? _ content <;> rfl

theorem encodes_integer (depth : Nat) (n : Int) :
    Encodes (depth + 1) (Der.writeInteger n) (some (.integer (Der.integerContent n))) :=
  encodes_leaf depth rfl (by decide) _

theorem encodes_octets (depth : Nat) (bs : Octets) :
    Encodes (depth + 1) (Der.writeOctets bs) (some (.octetString bs)) :=
  encodes_leaf depth rfl (by decide) _

theorem encodes_null (depth : Nat) : Encodes (depth + 1) Der.null (some (.other 5 [])) :=
  encodes_leaf depth rfl (by decide) []

theorem encodes_bool (depth : Nat) (b : Bool) :
    Encodes (depth + 1) (Der.writeBool b) (some (.boolean b)) := by
  cases b <;> exact encodes_leaf depth rfl (by decide) _

theorem encodes_enumerated (depth : Nat) {n : Nat} (h : n < 128) :
    Encodes (depth + 1) (Der.writeEnumerated n) (some (.enumerated n)) := by
  have hnat : Octets.toNat [UInt8.ofNat n] = n := by
    change 0 * 256 + (UInt8.ofNat n).toNat = n
    rw [UInt8.toNat_ofNat']
    omega
  have hleaf : leaf? ⟨.universal, false, 10, some 1⟩ [UInt8.ofNat n] = some (.enumerated n) := by
    change (if false = true ∨ 0x100000000 ≤ Octets.toNat [UInt8.ofNat n] then none else
      some (Object.enumerated (Octets.toNat [UInt8.ofNat n]))) = _
    have hsmall : ¬ (false = true ∨ 0x100000000 ≤ n) := not_or.2 ⟨Bool.false_ne_true, by omega⟩
    rw [hnat, if_neg hsmall]
  exact hleaf ▸
    encodes_leaf depth (show tagClass 0x0A = .universal from rfl) (by decide) [UInt8.ofNat n]

theorem encodes_explicit (depth n : Nat) (content : Octets) :
    Encodes (depth + 1) (Der.writeExplicit n content)
      ((tagNumber? n).map fun n => .tagged .context n content) := by
  intro h
  have hlen := length_explicit_lt h
  refine ⟨?_, fun rest => ?_⟩
  · unfold Der.writeExplicit Der.contextIdentifier
    split <;> simp
  · rw [object, header_writeExplicit n hlen]
    cases tagNumber? n with
    | none => rfl
    | some m =>
      simp only [Option.map_some, Option.bind_eq_bind, Option.bind_some, content_append]
      rfl

/-- Parts that can be counted together can be counted each. -/
theorem takes_of_encodes {depth : Nat} {parts : List Octets} {xs : List (Option Object)}
    (h : List.Forall₂ (Encodes depth) parts xs)
    (hlen : parts.flatten.length < 0x10000000000000000) :
    List.Forall₂ (Takes (object depth)) parts xs := by
  induction h with
  | nil => exact .nil
  | cons hbs _ ih =>
    rw [List.flatten_cons, List.length_append] at hlen
    exact .cons (hbs (by omega)) (ih (by omega))

theorem items_append {item : Reader Object} {parts : List Octets} {xs : List (Option Object)}
    (h : List.Forall₂ (Takes item) parts xs) (rest : Octets) :
    items item (some parts.flatten.length) (parts.flatten ++ rest) = (xs.mapM id).map fun xs =>
      (xs, rest) := by
  rw [items, Octets.split?_append]
  change (Reader.all item parts.flatten >>= _) = _
  rw [Reader.all_flatten h]
  cases xs.mapM id <;> rfl

/-- A universal SEQUENCE or SET of the parts. -/
theorem encodes_parts {depth : Nat} {parts : List Octets} {xs : List (Option Object)}
    (h : List.Forall₂ (Encodes depth) parts xs) {lead : UInt8} (hlead : lead = 0x30 ∨ lead = 0x31) :
    Encodes (depth + 1) (Der.write lead parts.flatten)
      ((xs.mapM id).map fun xs => if lead = 0x30 then .sequence xs else .set xs) := by
  intro hlen
  refine ⟨List.cons_ne_nil _ _, fun rest => ?_⟩
  have hparts := length_content_lt hlen
  have hitems := items_append (takes_of_encodes h hparts) rest
  have hlow : lead.toNat % 32 ≠ 31 := by rcases hlead with rfl | rfl <;> decide
  rw [object, header_write hlow hparts]
  rcases hlead with rfl | rfl
  all_goals
    change (items (object depth) (some parts.flatten.length) (parts.flatten ++ rest) >>= _) = _
    rw [hitems]
    cases xs.mapM id <;> rfl

theorem encodes_sequence {depth : Nat} {parts : List Octets} {xs : List (Option Object)}
    (h : List.Forall₂ (Encodes depth) parts xs) :
    Encodes (depth + 1) (Der.writeSequence parts) ((xs.mapM id).map .sequence) :=
  encodes_parts h (.inl rfl)

theorem mapM_id_map_some {α : Type} (xs : List α) : (xs.map some).mapM id = some xs := by
  rw [Entries.mapM_eq_some_iff]
  simp [List.filterMap_map]

theorem encodes_sequence_some {depth : Nat} {parts : List Octets} {xs : List Object}
    (h : List.Forall₂ (fun bs x => Encodes depth bs (some x)) parts xs) :
    Encodes (depth + 1) (Der.writeSequence parts) (some (.sequence xs)) := by
  have hall := encodes_sequence (List.forall₂_map_right_iff.2 h)
  rw [mapM_id_map_some] at hall
  exact hall

theorem encodes_set_some {depth : Nat} {parts : List Octets} {xs : List Object}
    (h : List.Forall₂ (fun bs x => Encodes depth bs (some x)) parts xs) :
    Encodes (depth + 1) (Der.writeSet parts) (some (.set xs)) := by
  have hall := encodes_parts (List.forall₂_map_right_iff.2 h) (.inr rfl)
  rw [mapM_id_map_some] at hall
  exact hall

/-- Parts written one by one from a list. -/
theorem forall₂_encodes {α : Type} {depth : Nat} {write : α → Octets} {object : α → Object}
    (h : ∀ a, Encodes depth (write a) (some (object a))) (as : List α) :
    List.Forall₂ (fun bs x => Encodes depth bs (some x)) (as.map write) (as.map object) := by
  rw [List.forall₂_map_left_iff, List.forall₂_map_right_iff, List.forall₂_same]
  exact fun a _ => h a

/-- What is read of the one object that the octets are. -/
theorem Encodes.bind_ofOctets {α : Type} {bs : Octets} {x : Object}
    (h : Encodes maxDepth bs (some x)) (hlen : bs.length < 0x10000000000000000) (what : String)
    (read : Object → Decoded α) {a : α} (hread : read x = .ok a) :
    Object.ofOctets what bs >>= read = .ok a :=
  bind_eq_ok_iff.2 ⟨x, toOption_eq_some_iff.1 ((h hlen).readWhole what), hread⟩

theorem asNumber_integer {n : Int} (h : -0x10000000000000000 ≤ n ∧ n < 0x10000000000000000)
    (what : String) : (Object.integer (Der.integerContent n)).asNumber what = .ok n := by
  obtain ⟨hlo, hhi⟩ := Der.length_integerContent h
  rw [Object.asNumber_integer, if_pos ⟨hlo, by omega⟩, Der.toInt_integerContent]

theorem asInt_integer (n : Int64) (what : String) :
    (Object.integer (Der.integerContent n.toInt)).asInt what = .ok n := by
  have hlo := n.le_toInt
  have hhi := n.toInt_lt
  rw [Object.asInt, bind_eq_ok_iff]
  exact ⟨_, asNumber_integer ⟨by omega, by omega⟩ what, asInt64_eq_ok_iff.2 rfl⟩

theorem asUInt_integer (n : UInt64) (what : String) :
    (Object.integer (Der.integerContent n.toNat)).asUInt what = .ok n := by
  have hhi := n.toNat_lt
  rw [Object.asUInt, bind_eq_ok_iff]
  exact ⟨_, asNumber_integer ⟨by omega, by omega⟩ what, asUInt64_eq_ok_iff.2 rfl⟩

end Ber

end AttestedKey
