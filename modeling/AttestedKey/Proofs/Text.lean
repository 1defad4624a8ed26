import AttestedKey.Utf8

/-! Text as octets: what is written for a text decodes to it, and so nothing of it is replaced. One
character is one step of the decoder (`step_encodeChar`); its lead octet announces how many octets
follow, and the narrowed range of the first of them leaves out only what no character is written
as. The other way round a step of the decoder takes only what is written for its character
(`eq_encodeChar_of_step`), so nothing else decodes to a text. -/

namespace AttestedKey.Utf8

theorem toNat_octet {n : Nat} (h : n < 256) : (UInt8.ofNat n).toNat = n := by
  rw [UInt8.toNat_ofNat']
  omega

/-- An octet that follows adds six bits. -/
theorem tail_cons {payload following low high k : Nat} (hlow : low ≤ 0x80 + k % 64)
    (hhigh : 0x80 + k % 64 ≤ high) (bs : Octets) :
    tail payload (following + 1) low high (UInt8.ofNat (0x80 + k % 64) :: bs) =
      tail (payload * 64 + k % 64) following 0x80 0xBF bs := by
  rw [tail, toNat_octet (by omega), if_pos ⟨hlow, hhigh⟩,
    show (0x80 + k % 64) % 64 = k % 64 by omega]

theorem tail_cons_any {payload following k : Nat} (bs : Octets) :
    tail payload (following + 1) 0x80 0xBF (UInt8.ofNat (0x80 + k % 64) :: bs) =
      tail (payload * 64 + k % 64) following 0x80 0xBF bs :=
  tail_cons (by omega) (by omega) bs

theorem step_two {n : Nat} (hlo : 0x80 ≤ n) (hhi : n < 0x800) (rest : Octets) :
    step (UInt8.ofNat (0xC0 + n / 64)) (UInt8.ofNat (0x80 + n % 64) :: rest) =
      (some (Char.ofNat n), rest) := by
  have hlead : lead? (UInt8.ofNat (0xC0 + n / 64)) = some ⟨n / 64, 1, 0x80, 0xBF⟩ := by
    unfold lead?
    rw [toNat_octet (by omega), if_neg (by omega), if_neg (by omega), if_pos (by omega),
      Nat.add_sub_cancel_left]
  simp only [step, hlead, tail_cons_any]
  rw [tail, show n / 64 * 64 + n % 64 = n by omega]
  rfl

theorem step_three {n : Nat} (hlo : 0x800 ≤ n) (hhi : n < 0x10000)
    (hscalar : n < 0xD800 ∨ 0xDFFF < n) (rest : Octets) :
    step (UInt8.ofNat (0xE0 + n / 4096))
      (UInt8.ofNat (0x80 + n / 64 % 64) :: UInt8.ofNat (0x80 + n % 64) :: rest) =
      (some (Char.ofNat n), rest) := by
  -- the first octet that follows is narrowed after 0xE0, to leave out shorter forms, and after
  -- 0xED, surrogates
  have hlead : ∃ low high, lead? (UInt8.ofNat (0xE0 + n / 4096)) = some ⟨n / 4096, 2, low, high⟩ ∧
      low ≤ 0x80 + n / 64 % 64 ∧ 0x80 + n / 64 % 64 ≤ high := by
    unfold lead?
    rw [toNat_octet (by omega), if_neg (by omega), if_neg (by omega), if_neg (by omega)]
    by_cases h0 : 0xE0 + n / 4096 = 0xE0
    · exact ⟨0xA0, 0xBF, by rw [if_pos h0, show n / 4096 = 0 by omega], by omega, by omega⟩
    · rw [if_neg h0]
      by_cases hd : 0xE0 + n / 4096 = 0xED
      · exact ⟨0x80, 0x9F, by rw [if_pos hd, show n / 4096 = 0xD by omega], by omega, by omega⟩
      · exact ⟨0x80,
          0xBF, by rw [if_neg hd, if_pos (by omega), Nat.add_sub_cancel_left], by omega, by omega⟩
  obtain ⟨low, high, hlead, hlow, hhigh⟩ := hlead
  simp only [step, hlead, tail_cons hlow hhigh, tail_cons_any]
  rw [tail, show (n / 4096 * 64 + n / 64 % 64) * 64 + n % 64 = n by omega]
  rfl

theorem step_four {n : Nat} (hlo : 0x10000 ≤ n) (hhi : n < 0x110000) (rest : Octets) :
    step (UInt8.ofNat (0xF0 + n / 262144)) (UInt8.ofNat (0x80 + n / 4096 % 64) ::
      UInt8.ofNat (0x80 + n / 64 % 64) :: UInt8.ofNat (0x80 + n % 64) :: rest) =
      (some (Char.ofNat n), rest) := by
  have hlead : ∃ low high,
    lead? (UInt8.ofNat (0xF0 + n / 262144)) = some ⟨n / 262144, 3, low, high⟩ ∧
      low ≤ 0x80 + n / 4096 % 64 ∧ 0x80 + n / 4096 % 64 ≤ high := by
    unfold lead?
    rw [toNat_octet (by omega), if_neg (by omega), if_neg (by omega), if_neg (by omega),
      if_neg (by omega), if_neg (by omega), if_neg (by omega)]
    by_cases h0 : 0xF0 + n / 262144 = 0xF0
    · exact ⟨0x90, 0xBF, by rw [if_pos h0, show n / 262144 = 0 by omega], by omega, by omega⟩
    · rw [if_neg h0]
      by_cases h3 : 0xF0 + n / 262144 < 0xF4
      · exact ⟨0x80, 0xBF, by rw [if_pos h3, Nat.add_sub_cancel_left], by omega, by omega⟩
      · exact ⟨0x80,
          0x8F, by
            rw [if_neg h3, if_pos (by omega), show n / 262144 = 4 by omega], by omega, by omega⟩
  obtain ⟨low, high, hlead, hlow, hhigh⟩ := hlead
  simp only [step, hlead, tail_cons hlow hhigh, tail_cons_any]
  rw [tail, show ((n / 262144 * 64 + n / 4096 % 64) * 64 + n / 64 % 64) * 64 + n % 64 = n by omega]
  rfl

theorem step_encodeChar (c : Char) (rest : Octets) :
    ∃ b bs, encodeChar c = b :: bs ∧ step b (bs ++ rest) = (some c, rest) := by
  have hscalar : c.toNat < 0xD800 ∨ 0xDFFF < c.toNat ∧ c.toNat < 0x110000 := c.valid
  have hc : Char.ofNat c.toNat = c := Char.ofNat_toNat c
  unfold encodeChar
  by_cases h1 : c.toNat < 0x80
  · have hlead : lead? (UInt8.ofNat c.toNat) = some ⟨c.toNat, 0, 0x80, 0xBF⟩ := by
      unfold lead?
      rw [toNat_octet (by omega), if_pos h1]
    refine ⟨_, _, if_pos h1, ?_⟩
    simp only [step, hlead, List.nil_append, tail, Option.map_some, hc]
  · by_cases h2 : c.toNat < 0x800
    · have hstep := step_two (Nat.le_of_not_lt h1) h2 rest
      rw [hc] at hstep
      exact ⟨_, _, (if_neg h1).trans (if_pos h2), hstep⟩
    · by_cases h3 : c.toNat < 0x10000
      · have hstep := step_three (Nat.le_of_not_lt h2) h3 (hscalar.imp_right And.left) rest
        rw [hc] at hstep
        exact ⟨_, _, (if_neg h1).trans ((if_neg h2).trans (if_pos h3)), hstep⟩
      · have hstep := step_four (Nat.le_of_not_lt h3) (show c.toNat < 0x110000 by omega) rest
        rw [hc] at hstep
        exact ⟨_, _, (if_neg h1).trans ((if_neg h2).trans (if_neg h3)), hstep⟩

theorem piecesOnto_encode {cs : List Char} {fuel : Nat}
    (hfuel : (cs.flatMap encodeChar).length ≤ fuel) (found : List (Option Char)) :
    piecesOnto fuel found (cs.flatMap encodeChar) = found.reverse ++ cs.map some := by
  induction cs generalizing fuel found with
  | nil => cases fuel <;> simp [piecesOnto]
  | cons c cs ih =>
    obtain ⟨b, bs, hbs, hstep⟩ := step_encodeChar c (cs.flatMap encodeChar)
    rw [List.flatMap_cons, hbs] at hfuel ⊢
    simp only [List.cons_append, List.length_cons, List.length_append] at hfuel
    obtain ⟨more, rfl⟩ : ∃ more, fuel = more + 1 := ⟨fuel - 1, by omega⟩
    have hmore : (cs.flatMap encodeChar).length ≤ more := by omega
    rw [List.cons_append, piecesOnto, hstep]
    simp [ih hmore]

theorem decodeLossy_encode (s : String) : decodeLossy (encode s) = s := by
  rw [decodeLossy, pieces, encode, piecesOnto_encode (Nat.le_refl _)]
  simp [Function.comp_def]

theorem decode?_encode (s : String) : decode? (encode s) = some s := by
  have hpieces : pieces (encode s) = s.toList.map some := by
    rw [pieces, encode, piecesOnto_encode (Nat.le_refl _)]
    simp
  have hall : (s.toList.map some).mapM id = some s.toList := by
    rw [List.mapM_map]
    exact (List.mapM_pure (m := Option) (f := id)).trans (by simp)
  rw [decode?, hpieces, hall, Option.map_some, String.ofList_toList]

/-- What a lead octet announces, by how many octets follow it. -/
theorem lead?_cases {b : UInt8} {l : Lead} (h : lead? b = some l) :
    (l.following = 0 ∧ b.toNat < 0x80 ∧ l.payload = b.toNat) ∨
      (l.following = 1 ∧ 0xC2 ≤ b.toNat ∧ b.toNat < 0xE0 ∧ l.payload = b.toNat - 0xC0 ∧
        0x80 ≤ l.low ∧ l.high ≤ 0xBF) ∨
      (l.following = 2 ∧ 0xE0 ≤ b.toNat ∧ b.toNat < 0xF0 ∧ l.payload = b.toNat - 0xE0 ∧
        0x80 ≤ l.low ∧ l.high ≤ 0xBF ∧ (b.toNat = 0xE0 → 0xA0 ≤ l.low) ∧
        (b.toNat = 0xED → l.high ≤ 0x9F)) ∨
      (l.following = 3 ∧ 0xF0 ≤ b.toNat ∧ b.toNat < 0xF5 ∧ l.payload = b.toNat - 0xF0 ∧
        0x80 ≤ l.low ∧ l.high ≤ 0xBF ∧ (b.toNat = 0xF0 → 0x90 ≤ l.low) ∧
        (b.toNat = 0xF4 → l.high ≤ 0x8F)) := by
  unfold lead? at h
  dsimp only at h
  -- nine ranges of lead octets, two of which announce nothing
  repeat' split at h
  all_goals first
    | (rw [← Option.some.inj h]; dsimp only; omega)
    | cases h

theorem tail_eq_some {payload following low high n : Nat} {bs rest : Octets}
    (h : tail payload (following + 1) low high bs = (some n, rest)) :
    ∃ b bs', bs = b :: bs' ∧ low ≤ b.toNat ∧ b.toNat ≤ high ∧
      tail (payload * 64 + b.toNat % 64) following 0x80 0xBF bs' = (some n, rest) := by
  cases bs with
  | nil => cases h
  | cons b bs =>
    rw [tail] at h
    split at h
    · next hb => exact ⟨b, bs, rfl, hb.1, hb.2, h⟩
    · cases h

theorem ofNat_eq {n : Nat} {b : UInt8} (h : n % 256 = b.toNat) : UInt8.ofNat n = b := by
  rw [← UInt8.toNat_inj, UInt8.toNat_ofNat']
  exact h

theorem toNat_ofNat {n : Nat} (h : n < 0xD800 ∨ 0xDFFF < n ∧ n < 0x110000) :
    (Char.ofNat n).toNat = n := by
  rw [Char.ofNat, dif_pos h]
  rfl

theorem encodeChar_one {n : Nat} (h : n < 0x80) : encodeChar (Char.ofNat n) = [UInt8.ofNat n] := by
  unfold encodeChar
  dsimp only
  rw [toNat_ofNat (by omega), if_pos h]

theorem encodeChar_two {n : Nat} (hlo : 0x80 ≤ n) (hhi : n < 0x800) :
    encodeChar (Char.ofNat n) = [UInt8.ofNat (0xC0 + n / 64), UInt8.ofNat (0x80 + n % 64)] := by
  unfold encodeChar
  dsimp only
  rw [toNat_ofNat (by omega), if_neg (by omega), if_pos hhi]

theorem encodeChar_three {n : Nat} (hlo : 0x800 ≤ n) (hhi : n < 0x10000)
    (hscalar : n < 0xD800 ∨ 0xDFFF < n) :
    encodeChar (Char.ofNat n) =
      [UInt8.ofNat (0xE0 + n / 4096), UInt8.ofNat (0x80 + n / 64 % 64),
        UInt8.ofNat (0x80 + n % 64)] := by
  unfold encodeChar
  dsimp only
  rw [toNat_ofNat (by omega), if_neg (by omega), if_neg (by omega), if_pos hhi]

theorem encodeChar_four {n : Nat} (hlo : 0x10000 ≤ n) (hhi : n < 0x110000) :
    encodeChar (Char.ofNat n) =
      [UInt8.ofNat (0xF0 + n / 262144), UInt8.ofNat (0x80 + n / 4096 % 64),
      UInt8.ofNat (0x80 + n / 64 % 64), UInt8.ofNat (0x80 + n % 64)] := by
  unfold encodeChar
  dsimp only
  rw [toNat_ofNat (by omega), if_neg (by omega), if_neg (by omega), if_neg (by omega)]

/-- What is read as a character is what is written for it. -/
theorem eq_encodeChar_of_step {b : UInt8} {bs rest : Octets} {c : Char}
    (h : step b bs = (some c, rest)) : b :: bs = encodeChar c ++ rest := by
  unfold step at h
  cases hl : lead? b with
  | none => rw [hl] at h; cases h
  | some l =>
    rw [hl] at h
    simp only [Prod.mk.injEq, Option.map_eq_some_iff] at h
    obtain ⟨⟨n, htail, rfl⟩, hrest⟩ := h
    have htail : tail l.payload l.following l.low l.high bs = (some n, rest) := Prod.ext htail hrest
    rcases lead?_cases hl with ⟨hf, hb, hp⟩ | ⟨hf, hlo, hhi, hp, hlow, hhigh⟩ |
      ⟨hf, hlo, hhi, hp, hlow, hhigh, h0, hd⟩ |
      ⟨hf, hlo, hhi, hp, hlow, hhigh, h0, h4⟩
    · rw [hf, tail] at htail
      cases htail
      have e0 : UInt8.ofNat l.payload = b := ofNat_eq (by omega)
      rw [encodeChar_one (by omega), e0]
      rfl
    · rw [hf] at htail
      obtain ⟨b1, bs1, rfl, hlow1, hhigh1, htail⟩ := tail_eq_some htail
      rw [tail, Prod.mk.injEq, Option.some.injEq] at htail
      obtain ⟨hn, rfl⟩ := htail
      have e0 : UInt8.ofNat (0xC0 + n / 64) = b := ofNat_eq (by omega)
      have e1 : UInt8.ofNat (0x80 + n % 64) = b1 := ofNat_eq (by omega)
      rw [encodeChar_two (by omega) (by omega), e0, e1]
      rfl
    · rw [hf] at htail
      obtain ⟨b1, bs1, rfl, hlow1, hhigh1, htail⟩ := tail_eq_some htail
      obtain ⟨b2, bs2, rfl, hlow2, hhigh2, htail⟩ := tail_eq_some htail
      rw [tail, Prod.mk.injEq, Option.some.injEq] at htail
      obtain ⟨hn, rfl⟩ := htail
      have e0 : UInt8.ofNat (0xE0 + n / 4096) = b := ofNat_eq (by omega)
      have e1 : UInt8.ofNat (0x80 + n / 64 % 64) = b1 := ofNat_eq (by omega)
      have e2 : UInt8.ofNat (0x80 + n % 64) = b2 := ofNat_eq (by omega)
      rw [encodeChar_three (by omega) (by omega) (by omega), e0, e1, e2]
      rfl
    · rw [hf] at htail
      obtain ⟨b1, bs1, rfl, hlow1, hhigh1, htail⟩ := tail_eq_some htail
      obtain ⟨b2, bs2, rfl, hlow2, hhigh2, htail⟩ := tail_eq_some htail
      obtain ⟨b3, bs3, rfl, hlow3, hhigh3, htail⟩ := tail_eq_some htail
      rw [tail, Prod.mk.injEq, Option.some.injEq] at htail
      obtain ⟨hn, rfl⟩ := htail
      have e0 : UInt8.ofNat (0xF0 + n / 262144) = b := ofNat_eq (by omega)
      have e1 : UInt8.ofNat (0x80 + n / 4096 % 64) = b1 := ofNat_eq (by omega)
      have e2 : UInt8.ofNat (0x80 + n / 64 % 64) = b2 := ofNat_eq (by omega)
      have e3 : UInt8.ofNat (0x80 + n % 64) = b3 := ofNat_eq (by omega)
      rw [encodeChar_four (by omega) (by omega), e0, e1, e2, e3]
      rfl

theorem piecesOnto_eq (fuel : Nat) (found : List (Option Char)) (bs : Octets) :
    piecesOnto fuel found bs = found.reverse ++ piecesOnto fuel [] bs := by
  induction fuel generalizing found bs with
  | zero => simp [piecesOnto]
  | succ fuel ih =>
    cases bs with
    | nil => simp [piecesOnto]
    | cons b bs =>
      simp only [piecesOnto]
      rw [ih, ih [_]]
      simp

theorem flatMap_encodeChar_of_piecesOnto {fuel : Nat} {bs : Octets} (hfuel : bs.length ≤ fuel)
    {cs : List Char} (h : piecesOnto fuel [] bs = cs.map some) : cs.flatMap encodeChar = bs := by
  induction fuel generalizing bs cs with
  | zero =>
    obtain rfl := List.eq_nil_of_length_eq_zero (Nat.le_zero.1 hfuel)
    rw [piecesOnto] at h
    rw [List.map_eq_nil_iff.1 h.symm]
    rfl
  | succ fuel ih =>
    cases bs with
    | nil =>
      rw [piecesOnto] at h
      rw [List.map_eq_nil_iff.1 h.symm]
      rfl
    | cons b bs =>
      simp only [piecesOnto] at h
      rw [piecesOnto_eq] at h
      cases cs with
      | nil => simp at h
      | cons c cs =>
        simp only [List.reverse_singleton, List.singleton_append, List.map_cons, List.cons.injEq]
          at h
        have hstep : b :: bs = encodeChar c ++ (step b bs).2 :=
          eq_encodeChar_of_step (Prod.ext h.1 rfl)
        have hlen := congrArg List.length hstep
        obtain ⟨b', bs', hchar, -⟩ := step_encodeChar c []
        rw [List.length_append, hchar, List.length_cons, List.length_cons] at hlen
        rw [List.length_cons] at hfuel
        rw [List.flatMap_cons, ih (by omega) h.2, hstep]

theorem map_eq_of_mapM {α β : Type} {f : α → Option β} {xs : List α} {ys : List β}
    (h : xs.mapM f = some ys) : xs.map f = ys.map some := by
  induction xs generalizing ys with
  | nil =>
    cases h
    rfl
  | cons x xs ih =>
    rw [List.mapM_cons] at h
    obtain ⟨y, hy, h⟩ := Option.bind_eq_some_iff.1 h
    obtain ⟨ys', hys, h⟩ := Option.bind_eq_some_iff.1 h
    cases h
    rw [List.map_cons, List.map_cons, hy, ih hys]

/-- Only what is written for a text decodes to it. -/
theorem encode_of_decode? {bs : Octets} {s : String} (h : decode? bs = some s) : encode s = bs := by
  obtain ⟨cs, hcs, rfl⟩ := Option.map_eq_some_iff.1 h
  have hpieces : pieces bs = cs.map some := by
    simpa using map_eq_of_mapM hcs
  rw [encode, String.toList_ofList]
  exact flatMap_encodeChar_of_piecesOnto (Nat.le_refl _) hpieces

end AttestedKey.Utf8
