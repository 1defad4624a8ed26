import AttestedKey.Cbor.Reader
import AttestedKey.Cbor.Writer
import AttestedKey.Proofs.Numbers
import AttestedKey.Proofs.Text
import Mathlib.Tactic.NormNum
import Mathlib.Tactic.Positivity

/-! Reading a data item as it has been written. Of every item that holds no more than 64 bits can
count (`Item.Fits`), `item_reread` says what is read from what is written for it, with whatever
follows left over. That is the item itself (`item_write`) but for a tag for large integers over a
byte string (`Item.HasBignum`), which is read as the integer where 64 bits hold it. Numbers of
every width come back since a number is written narrower only where widening restores it
(`FloatFormat.narrow?_eq_some`). -/

namespace AttestedKey.Cbor

namespace FloatFormat

variable (f : FloatFormat)

/-- Below the sign there is room for every exponent with every fraction. -/
theorem exponent_add_lt {exponent fraction : Nat} (he : exponent < 2 ^ f.exponentBits)
    (hf : fraction < 2 ^ f.fractionBits) :
    exponent <<< f.fractionBits + fraction < 2 ^ (f.exponentBits + f.fractionBits) := by
  rw [Nat.shiftLeft_eq, pow_add]
  calc
    exponent * 2 ^ f.fractionBits + fraction < (exponent + 1) * 2 ^ f.fractionBits := by
      rw [Nat.add_mul]
      omega
    _ ≤ 2 ^ f.exponentBits * 2 ^ f.fractionBits := Nat.mul_le_mul_right _ he

theorem shiftRight_lt {n k m : Nat} (h : n < 2 ^ m) (hk : m ≤ f.fractionBits + k) :
    n >>> k < 2 ^ f.fractionBits := by
  rw [Nat.shiftRight_eq_div_pow, Nat.div_lt_iff_lt_mul (by positivity), ← pow_add]
  exact h.trans_le (Nat.pow_le_pow_right (by decide) hk)

theorem candidate_lt {bits : Nat} (h : bits < 2 ^ 64) (hf : f.fractionBits < 52) :
    f.candidate bits < 2 ^ (1 + f.exponentBits + f.fractionBits) := by
  have hsign : (bits >>> 63) <<< (f.exponentBits + f.fractionBits) ≤
    2 ^ (f.exponentBits + f.fractionBits) := by
    have hs : bits >>> 63 ≤ 1 := by
      rw [Nat.shiftRight_eq_div_pow]
      omega
    rw [Nat.shiftLeft_eq]
    exact (Nat.mul_le_mul_right _ hs).trans (by rw [Nat.one_mul])
  have hmax : f.maxExponent < 2 ^ f.exponentBits := by
    have : 0 < 2 ^ f.exponentBits := by positivity
    rw [maxExponent, Nat.shiftLeft_eq, Nat.one_mul]
    omega
  have hfraction : (bits % 1 <<< 52) >>> (52 - f.fractionBits) < 2 ^ f.fractionBits :=
    f.shiftRight_lt (m := 52) (Nat.mod_lt _ (by decide)) (by omega)
  have hdouble : 2 ^ (1 + f.exponentBits + f.fractionBits) =
    2 * 2 ^ (f.exponentBits + f.fractionBits) := by
    rw [Nat.add_assoc, pow_add, pow_one]
  have hpos : 0 < 2 ^ (f.exponentBits + f.fractionBits) := by positivity
  rw [hdouble]
  simp only [candidate]
  split
  · have := f.exponent_add_lt hmax hfraction
    omega
  · split
    · split
      · next hlt =>
        have := f.exponent_add_lt (hlt.trans hmax) hfraction
        omega
      · omega
    · next hle =>
      -- a number that is subnormal in the narrow format has a fraction and no exponent
      have hsub : (1 <<< 52 + bits % 1 <<< 52) >>>
        (52 - f.fractionBits + 1 + 1023 - f.bias - (bits >>> 52) % 2048) <
          2 ^ (f.exponentBits + f.fractionBits) := by
        refine (f.shiftRight_lt (m := 53) ?_ (by omega)).trans_le
          (Nat.pow_le_pow_right (by decide) (by omega))
        have := Nat.mod_lt bits (show 0 < 1 <<< 52 by decide)
        norm_num at this ⊢
        omega
      omega

theorem narrow?_eq_some {bits n : Nat} (h : f.narrow? bits = some n) :
    f.candidate bits = n ∧ f.widen n = bits := by
  simp only [narrow?] at h
  split at h
  · next hw =>
    cases h
    exact ⟨rfl, hw⟩
  · cases h

end FloatFormat

namespace Item

/-- Somewhere in the item tag 2 or 3 stands over a byte string, which a reader may take for an
integer. -/
inductive HasBignum : Item → Prop
  | here {number : UInt64} {b : Octets} : number = 2 ∨ number = 3 →
      HasBignum (.tagged number (.bytes b))
  | element {x : Item} {xs : List Item} : x ∈ xs → x.HasBignum → HasBignum (.array xs)
  | key {e : Item × Item} {es : List (Item × Item)} : e ∈ es → e.1.HasBignum → HasBignum (.map es)
  | value {e : Item × Item} {es : List (Item × Item)} : e ∈ es → e.2.HasBignum → HasBignum (.map es)
  | content {number : UInt64} {x : Item} : x.HasBignum → HasBignum (.tagged number x)

/-- At most `depth` arrays, maps and tags stand inside each other, and every string, array and map
holds less than `limit`; a large integer is a number, whatever it is written with. -/
inductive Fits (limit : Nat) : Nat → Item → Prop
  | unsigned {depth : Nat} (n : UInt64) : Fits limit depth (.unsigned n)
  | negative {depth : Nat} (n : UInt64) : Fits limit depth (.negative n)
  | bytes {depth : Nat} {b : Octets} : b.length < limit → Fits limit depth (.bytes b)
  | text {depth : Nat} {s : String} : (Utf8.encode s).length < limit → Fits limit depth (.text s)
  | array {depth : Nat} {xs : List Item} : xs.length < limit → (∀ x ∈ xs, Fits limit depth x) →
      Fits limit (depth + 1) (.array xs)
  | map {depth : Nat} {es : List (Item × Item)} : es.length < limit →
      (∀ e ∈ es, Fits limit depth e.1) → (∀ e ∈ es, Fits limit depth e.2) →
      Fits limit (depth + 1) (.map es)
  | bignum {depth : Nat} {number : UInt64} {b : Octets} : number = 2 ∨ number = 3 → b.length ≤ 16 →
      Fits limit depth (.tagged number (.bytes b))
  | tagged {depth : Nat} {number : UInt64} {x : Item} : Fits limit depth x →
      Fits limit (depth + 1) (.tagged number x)
  | bool {depth : Nat} (b : Bool) : Fits limit depth (.bool b)
  | null {depth : Nat} : Fits limit depth .null
  | float {depth : Nat} (bits : UInt64) : Fits limit depth (.float bits)

/-- What is read from what is written for the item. -/
def reread : Item → Option Item
  | .array xs => do pure (.array (← xs.attach.mapM fun ⟨x, _⟩ => reread x))
  | .map es => do pure (.map (← es.attach.mapM fun ⟨e, _⟩ => do pure (← reread e.1, ← reread e.2)))
  | .tagged number (.bytes b) =>
    if (number = 2 ∨ number = 3) ∧ b.length ≤ 16 then bignum (number = 3) (Octets.toNat b)
    else some (.tagged number (.bytes b))
  | .tagged number x => (reread x).map (.tagged number)
  | x => some x
termination_by i => sizeOf i
decreasing_by
  · have := List.sizeOf_lt_of_mem ‹_›
    simp only [Item.array.sizeOf_spec]
    omega
  · have := sizeOf_fst_lt ‹_›
    simp only [Item.map.sizeOf_spec]
    omega
  · have := sizeOf_snd_lt ‹_›
    simp only [Item.map.sizeOf_spec]
    omega
  · simp only [Item.tagged.sizeOf_spec]
    omega

theorem reread_array (xs : List Item) : reread (.array xs) = (xs.mapM reread).map .array := by
  rw [reread, List.mapM_subtype (g := reread) fun _ _ => rfl, List.unattach_attach]
  cases xs.mapM reread <;> rfl

def rereadEntry (e : Item × Item) : Option (Item × Item) := do pure (← reread e.1, ← reread e.2)

theorem reread_map (es : List (Item × Item)) :
    reread (.map es) = (es.mapM rereadEntry).map .map := by
  rw [reread, List.mapM_subtype (g := rereadEntry) fun _ _ => rfl, List.unattach_attach]
  cases es.mapM rereadEntry <;> rfl

theorem reread_tagged_of_ne {number : UInt64} {x : Item} (h : ∀ b, x ≠ .bytes b) :
    reread (.tagged number x) = (reread x).map (.tagged number) := by
  rw [reread]
  exact h

theorem mapM_eq_self {α : Type} {f : α → Option α} {xs : List α} (h : ∀ x ∈ xs, f x = some x) :
    xs.mapM f = some xs := by
  induction xs with
  | nil => rfl
  | cons x xs ih =>
    rw [List.mapM_cons, h x List.mem_cons_self, ih fun y hy => h y (List.mem_cons_of_mem x hy)]
    rfl

/-- Without large integers an item comes back as it is. -/
theorem reread_eq_self {x : Item} (h : ¬ x.HasBignum) : x.reread = some x := by
  induction x using reread.induct with
  | case1 xs ih =>
    rw [reread_array, mapM_eq_self fun x hx => ih x hx fun hbig => h (.element hx hbig)]
    rfl
  | case2 es ihkey ihvalue =>
    rw [reread_map, mapM_eq_self fun e he => ?_]
    · rfl
    · rw [rereadEntry, ihkey e he fun hbig => h (.key he hbig),
        ihvalue e he fun hbig => h (.value he hbig)]
      rfl
  | case3 number b hn => exact absurd (.here hn.1) h
  | case4 number b hn => rw [reread, if_neg hn]
  | case5 number x hx ih =>
    rw [reread_tagged_of_ne hx, ih fun hbig => h (.content hbig)]
    rfl
  | case6 x => rw [reread] <;> assumption

end Item

/-- An argument in octets of its own. -/
theorem head_argument (major j : Nat) {n : Nat} (hmajor : major < 8) (hj : j < 4)
    (hn : n < 256 ^ (1 <<< j)) (rest : Octets) :
    head (UInt8.ofNat (major * 32 + (24 + j)) :: (Octets.ofNat (1 <<< j) n ++ rest)) =
      some (⟨major, 1 <<< j, some n⟩, rest) := by
  have hlead : (UInt8.ofNat (major * 32 + (24 + j))).toNat = major * 32 + (24 + j) := by
    rw [UInt8.toNat_ofNat']
    omega
  have hsplit := Octets.split?_append (Octets.ofNat (1 <<< j) n) rest
  rw [Octets.length_ofNat] at hsplit
  simp only [head, hlead]
  rw [if_neg (by omega), if_pos (by omega), show (major * 32 + (24 + j)) % 32 - 24 = j by omega,
    hsplit, show (major * 32 + (24 + j)) / 32 = major by omega]
  simp [Octets.toNat_ofNat, Nat.mod_eq_of_lt hn]

theorem head_writeHead (major : Nat) {n : Nat} (hmajor : major < 8) (hn : n < 0x10000000000000000)
    (rest : Octets) :
    ∃ width, head (writeHead major n ++ rest) = some (⟨major, width, some n⟩, rest) := by
  simp only [writeHead]
  split
  · next h =>
    have hlead : (UInt8.ofNat (major * 32 + n)).toNat = major * 32 + n := by
      rw [UInt8.toNat_ofNat']
      omega
    refine ⟨0, ?_⟩
    simp only [List.cons_append, List.nil_append, head, hlead]
    rw [if_pos (by omega), show (major * 32 + n) / 32 = major by omega,
      show (major * 32 + n) % 32 = n by omega]
  · split
    · next h => exact ⟨1, head_argument major 0 hmajor (by decide) h rest⟩
    · split
      · next h => exact ⟨2, head_argument major 1 hmajor (by decide) h rest⟩
      · split
        · next h => exact ⟨4, head_argument major 2 hmajor (by decide) h rest⟩
        · exact ⟨8, head_argument major 3 hmajor (by decide) hn rest⟩

section

/-- What is read from what is written for each of a list, one after the other. -/
theorem timesOnto_flatMap {α : Type} {item : Reader α} {write : α → Octets} {f : α → Option α}
    {xs : List α} (h : ∀ x ∈ xs, ∀ rest, item (write x ++ rest) = (f x).map (·, rest))
    (found : List α) (rest : Octets) :
    Reader.timesOnto item xs.length found (xs.flatMap write ++ rest) =
      (xs.mapM f).map fun ys => (found.reverse ++ ys, rest) := by
  induction xs generalizing found with
  | nil => simp [Reader.timesOnto]
  | cons x xs ih =>
    rw [List.length_cons, Reader.timesOnto, List.flatMap_cons, List.append_assoc,
      h x List.mem_cons_self, List.mapM_cons]
    cases f x with
    | none => rfl
    | some y =>
      simp only [Option.map_some]
      rw [ih fun z hz => h z (List.mem_cons_of_mem x hz)]
      cases xs.mapM f <;> simp

theorem times_flatMap {α : Type} {item : Reader α} {write : α → Octets} {f : α → Option α}
    {xs : List α} (h : ∀ x ∈ xs, ∀ rest, item (write x ++ rest) = (f x).map (·, rest))
    (rest : Octets) :
    Reader.times item xs.length (xs.flatMap write ++ rest) = (xs.mapM f).map fun ys => (ys, rest) :=
  timesOnto_flatMap h [] rest

variable (inner : Option (Reader Item))

theorem itemWith_unsigned (n : UInt64) (rest : Octets) :
    itemWith inner (write (.unsigned n) ++ rest) = some (.unsigned n, rest) := by
  obtain ⟨width, hhead⟩ := head_writeHead 0 (by decide) n.toNat_lt rest
  rw [write]
  simp [itemWith, hhead]

theorem itemWith_negative (n : UInt64) (rest : Octets) :
    itemWith inner (write (.negative n) ++ rest) = some (.negative n, rest) := by
  obtain ⟨width, hhead⟩ := head_writeHead 1 (by decide) n.toNat_lt rest
  rw [write]
  simp [itemWith, hhead]

theorem itemWith_bytes {b : Octets} (hb : b.length < 0x10000000000000000) (rest : Octets) :
    itemWith inner (write (.bytes b) ++ rest) = some (.bytes b, rest) := by
  obtain ⟨width, hhead⟩ := head_writeHead 2 (by decide) hb (b ++ rest)
  rw [write, List.append_assoc]
  simp [itemWith, hhead, pieces, Octets.split?_append]

theorem itemWith_text {s : String} (hs : (Utf8.encode s).length < 0x10000000000000000)
    (rest : Octets) : itemWith inner (write (.text s) ++ rest) = some (.text s, rest) := by
  obtain ⟨width, hhead⟩ := head_writeHead 3 (by decide) hs (Utf8.encode s ++ rest)
  rw [write, List.append_assoc]
  simp [itemWith, hhead, pieces, Octets.split?_append, Utf8.decode?_encode, String.join]

theorem itemWith_bool (b : Bool) (rest : Octets) :
    itemWith inner (write (.bool b) ++ rest) = some (.bool b, rest) := by
  cases b <;> rw [write] <;> rfl

theorem itemWith_null (rest : Octets) :
    itemWith inner (write .null ++ rest) = some (.null, rest) := by
  rw [write]
  rfl

theorem itemWith_of_head_float {bs rest : Octets} {width n : Nat}
    (hhead : head bs = some (⟨7, width, some n⟩, rest)) :
    itemWith inner bs = (simple ⟨7, width, some n⟩).map fun x => (x, rest) := by
  simp [itemWith, hhead]
  cases simple ⟨7, width, some n⟩ <;> rfl

theorem itemWith_float (bits : UInt64) (rest : Octets) :
    itemWith inner (write (.float bits) ++ rest) = some (.float bits, rest) := by
  have hbits : bits.toNat < 2 ^ 64 := bits.toNat_lt
  rw [write, writeFloat]
  split
  · next n hn =>
    obtain ⟨hc, hw⟩ := FloatFormat.narrow?_eq_some _ hn
    have hlt := FloatFormat.candidate_lt FloatFormat.half hbits (by decide)
    rw [hc] at hlt
    have hhead := head_argument 7 1 (by decide) (by decide) hlt rest
    rw [List.cons_append]
    refine (itemWith_of_head_float inner hhead).trans ?_
    simp [simple, hw]
  · split
    · next n hn =>
      obtain ⟨hc, hw⟩ := FloatFormat.narrow?_eq_some _ hn
      have hlt := FloatFormat.candidate_lt FloatFormat.single hbits (by decide)
      rw [hc] at hlt
      have hhead := head_argument 7 2 (by decide) (by decide) hlt rest
      rw [List.cons_append]
      refine (itemWith_of_head_float inner hhead).trans ?_
      simp [simple, hw]
    · have hhead := head_argument 7 3 (by decide) (by decide) hbits rest
      rw [List.cons_append]
      refine (itemWith_of_head_float inner hhead).trans ?_
      simp [simple]

variable {inner}

theorem itemWith_array_again {reader : Reader Item} {f : Item → Option Item} {xs : List Item}
    (hlen : xs.length < 0x10000000000000000)
    (h : ∀ x ∈ xs, ∀ rest, reader (write x ++ rest) = (f x).map (·, rest)) (rest : Octets) :
    itemWith (some reader) (write (.array xs) ++ rest) =
      ((xs.mapM f).map .array).map (·, rest) := by
  obtain ⟨width, hhead⟩ := head_writeHead 4 (by decide) hlen (xs.flatMap write ++ rest)
  rw [write_array, List.append_assoc]
  simp [itemWith, hhead, several, times_flatMap h]
  cases xs.mapM f <;> rfl

theorem itemWith_array {reader : Reader Item} {xs : List Item}
    (hlen : xs.length < 0x10000000000000000)
    (h : ∀ x ∈ xs, ∀ rest, reader (write x ++ rest) = some (x, rest)) (rest : Octets) :
    itemWith (some reader) (write (.array xs) ++ rest) = some (.array xs, rest) := by
  rw [itemWith_array_again (f := some) hlen h, Item.mapM_eq_self fun _ _ => rfl]
  rfl

theorem itemWith_map_again {reader : Reader Item} {f : Item × Item → Option (Item × Item)}
    {es : List (Item × Item)} (hlen : es.length < 0x10000000000000000)
    (h : ∀ e ∈ es, ∀ rest, entry reader ((write e.1 ++ write e.2) ++ rest) = (f e).map (·, rest))
    (rest : Octets) :
    itemWith (some reader) (write (.map es) ++ rest) = ((es.mapM f).map .map).map (·, rest) := by
  obtain ⟨width, hhead⟩ := head_writeHead 5 (by decide) hlen
    ((es.flatMap fun e => write e.1 ++ write e.2) ++ rest)
  rw [write_map, List.append_assoc]
  simp [itemWith, hhead, entries, times_flatMap h]
  cases es.mapM f <;> rfl

/-- A key and its value, each as it is read. -/
theorem entry_write {reader : Reader Item} {e : Item × Item} {k v : Option Item}
    (hkey : ∀ rest, reader (write e.1 ++ rest) = k.map (·, rest))
    (hvalue : ∀ rest, reader (write e.2 ++ rest) = v.map (·, rest)) (rest : Octets) :
    entry reader ((write e.1 ++ write e.2) ++ rest) =
      (do pure (← k, ← v) : Option (Item × Item)).map (·, rest) := by
  rw [List.append_assoc]
  simp only [entry, hkey]
  cases k with
  | none => rfl
  | some k =>
    simp only [Option.map_some, Option.bind_eq_bind, Option.bind_some, hvalue]
    cases v <;> rfl

theorem itemWith_map {reader : Reader Item} {es : List (Item × Item)}
    (hlen : es.length < 0x10000000000000000)
    (hkey : ∀ e ∈ es, ∀ rest, reader (write e.1 ++ rest) = some (e.1, rest))
    (hvalue : ∀ e ∈ es, ∀ rest, reader (write e.2 ++ rest) = some (e.2, rest)) (rest : Octets) :
    itemWith (some reader) (write (.map es) ++ rest) = some (.map es, rest) := by
  rw [itemWith_map_again (f := some) hlen fun e he =>
    entry_write (k := some e.1) (v := some e.2) (hkey e he) (hvalue e he),
    Item.mapM_eq_self fun _ _ => rfl]
  rfl

/-- Of what is written only byte strings start like one. -/
theorem startsShortBytes_write {depth : Nat} {x : Item} (h : x.Fits 0x10000000000000000 depth)
    (hx : ∀ b, x ≠ .bytes b) (rest : Octets) : startsShortBytes (write x ++ rest) = false := by
  have hother : ∀ {major n : Nat} (body : Octets), major < 8 → major ≠ 2 → n < 0x10000000000000000 →
      startsShortBytes (writeHead major n ++ body) = false := by
    intro major n body hmajor hne hn
    obtain ⟨width, hhead⟩ := head_writeHead major hmajor hn body
    simp only [startsShortBytes, hhead]
    split
    · next heq =>
      cases heq
      exact absurd rfl hne
    · rfl
  cases h with
  | unsigned n => rw [write]; exact hother rest (by decide) (by decide) n.toNat_lt
  | negative n => rw [write]; exact hother rest (by decide) (by decide) n.toNat_lt
  | bytes => exact absurd rfl (hx _)
  | text hs => rw [write, List.append_assoc]; exact hother _ (by decide) (by decide) hs
  | array hlen => rw [write_array, List.append_assoc]; exact hother _ (by decide) (by decide) hlen
  | map hlen => rw [write_map, List.append_assoc]; exact hother _ (by decide) (by decide) hlen
  | @bignum _ number | @tagged _ number =>
    rw [write, List.append_assoc]
    exact hother _ (by decide) (by decide) number.toNat_lt
  | bool b => cases b <;> rw [write] <;> rfl
  | null => rw [write]; rfl
  | float bits =>
    rw [write, writeFloat]
    split
    · rfl
    · split <;> rfl

theorem toNat_eq_two_or_three_iff {number : UInt64} :
    number.toNat = 2 ∨ number.toNat = 3 ↔ number = 2 ∨ number = 3 := by
  rw [← UInt64.toNat_inj, ← UInt64.toNat_inj]
  rfl

theorem itemWith_tagged {reader : Reader Item} {number : UInt64} {x : Item} {y : Option Item}
    (h : ∀ rest, reader (write x ++ rest) = y.map (·, rest)) (rest : Octets)
    (hshort : number = 2 ∨ number = 3 → startsShortBytes (write x ++ rest) = false) :
    itemWith (some reader) (write (.tagged number x) ++ rest) =
      (y.map (.tagged number)).map (·, rest) := by
  obtain ⟨width, hhead⟩ := head_writeHead 6 (by decide) number.toNat_lt (write x ++ rest)
  rw [write, List.append_assoc]
  have hno : ¬ ((number.toNat = 2 ∨ number.toNat = 3) ∧
    startsShortBytes (write x ++ rest) = true) := by
    rintro ⟨hn, hs⟩
    rw [hshort (toNat_eq_two_or_three_iff.1 hn)] at hs
    cases hs
  simp [itemWith, hhead, hno, h]
  cases y <;> simp

theorem startsShortBytes_bytes {b : Octets} (hb : b.length < 0x10000000000000000) (rest : Octets) :
    startsShortBytes (write (.bytes b) ++ rest) = decide (b.length ≤ 16) := by
  obtain ⟨width, hhead⟩ := head_writeHead 2 (by decide) hb (b ++ rest)
  rw [write, List.append_assoc]
  simp only [startsShortBytes, hhead]

/-- A tag for a large integer is read as the integer that stands under it. -/
theorem itemWith_bignum (inner : Option (Reader Item)) {number : UInt64} {b : Octets}
    (hn : number = 2 ∨ number = 3) (hb : b.length ≤ 16) (rest : Octets) :
    itemWith inner (write (.tagged number (.bytes b)) ++ rest) =
      (bignum (number = 3) (Octets.toNat b)).map (·, rest) := by
  have hlen : b.length < 0x10000000000000000 := by omega
  obtain ⟨width, hhead⟩ := head_writeHead 6 (by decide) number.toNat_lt (write (.bytes b) ++ rest)
  obtain ⟨width', hhead'⟩ := head_writeHead 2 (by decide) hlen (b ++ rest)
  have hstarts := startsShortBytes_bytes hlen rest
  have hshort : shortBytes (write (.bytes b) ++ rest) = some (b, rest) := by
    rw [write, List.append_assoc]
    simp [shortBytes, hhead', hb, Octets.split?_append]
  have hnegative : decide (number.toNat = 3) = decide (number = 3) :=
    decide_eq_decide.2 (UInt64.toNat_inj (b := 3))
  rw [write, List.append_assoc]
  simp [itemWith, hhead, hstarts, hb, hshort, toNat_eq_two_or_three_iff.2 hn, hnegative]
  cases bignum (number = 3) (Octets.toNat b) <;> rfl

theorem item_of_itemWith {bs : Octets} {x : Option (Item × Octets)}
    (h : ∀ inner, itemWith inner bs = x) (depth : Nat) : item depth bs = x := by
  cases depth with
  | zero => exact h none
  | succ depth => exact h (some (item depth))

theorem item_of_plain {x : Item} {rest : Octets} (hx : ¬ x.HasBignum)
    (h : ∀ inner, itemWith inner (write x ++ rest) = some (x, rest)) (depth : Nat) :
    item depth (write x ++ rest) = x.reread.map (·, rest) := by
  rw [item_of_itemWith h, Item.reread_eq_self hx]
  rfl

/-- What is read from what is written for an item, whatever follows. -/
theorem item_reread {depth : Nat} {x : Item} (h : x.Fits 0x10000000000000000 depth)
    (rest : Octets) : item depth (write x ++ rest) = x.reread.map (·, rest) := by
  induction h generalizing rest with
  | unsigned n => exact item_of_plain (by rintro ⟨⟩) (fun inner => itemWith_unsigned inner n rest) _
  | negative n => exact item_of_plain (by rintro ⟨⟩) (fun inner => itemWith_negative inner n rest) _
  | bytes hlen => exact item_of_plain (by rintro ⟨⟩) (fun inner => itemWith_bytes inner hlen rest) _
  | text hlen => exact item_of_plain (by rintro ⟨⟩) (fun inner => itemWith_text inner hlen rest) _
  | @array depth xs hlen _ ih =>
    rw [Item.reread_array]
    exact itemWith_array_again hlen ih rest
  | @map depth es hlen _ _ ihkey ihvalue =>
    rw [Item.reread_map]
    exact itemWith_map_again hlen (fun e he => entry_write (ihkey e he) (ihvalue e he)) rest
  | @bignum depth number b hn hb =>
    rw [Item.reread, if_pos ⟨hn, hb⟩]
    exact item_of_itemWith (fun inner => itemWith_bignum inner hn hb rest) _
  | @tagged depth number x hfits ih =>
    -- only of a byte string it matters how it starts
    by_cases hx : ∃ b, x = .bytes b
    · obtain ⟨b, rfl⟩ := hx
      have hlen : b.length < 0x10000000000000000 := by cases hfits; assumption
      rw [Item.reread]
      split
      · next hshort => exact itemWith_bignum _ hshort.1 hshort.2 rest
      · next hshort =>
        refine itemWith_tagged (y := some (.bytes b)) (fun rest => ?_) rest fun hn => ?_
        · rw [ih, Item.reread_eq_self (by rintro ⟨⟩)]
        · rw [startsShortBytes_bytes hlen]
          exact decide_eq_false fun hb => hshort ⟨hn, hb⟩
    · have hne : ∀ b, x ≠ .bytes b := fun b hb => hx ⟨b, hb⟩
      rw [Item.reread_tagged_of_ne hne]
      exact itemWith_tagged ih rest fun _ => startsShortBytes_write hfits hne rest
  | bool b => exact item_of_plain (by rintro ⟨⟩) (fun inner => itemWith_bool inner b rest) _
  | null => exact item_of_plain (by rintro ⟨⟩) (fun inner => itemWith_null inner rest) _
  | float bits => exact item_of_plain (by rintro ⟨⟩) (fun inner => itemWith_float inner bits rest) _

/-- What is written for an item reads as the item, whatever follows. -/
theorem item_write {depth : Nat} {x : Item} (h : x.Fits 0x10000000000000000 depth)
    (hb : ¬ x.HasBignum) (rest : Octets) : item depth (write x ++ rest) = some (x, rest) := by
  rw [item_reread h, Item.reread_eq_self hb]
  rfl

end

end AttestedKey.Cbor
