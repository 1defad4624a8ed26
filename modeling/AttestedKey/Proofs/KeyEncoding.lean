import AttestedKey.Certificate.Conformance
import AttestedKey.Proofs.WrittenElements
import AttestedKey.Cryptography

/-! The own encoding of a public key. What can be read as a key satisfies the conditions of its
kind (`PublicKey.IsSound`), and a key that does is read again from its own encoding
(`PublicKey.ofKeyInfo?_keyInfo`), so encoding a key that was decoded is lawful. The point of a
compressed key is found again since the parity tells the two roots of the curve's equation apart. -/

namespace AttestedKey

open Der (Element element)

/-! ### Numbers without redundant octets -/

namespace Octets

theorem ofNat_toNat (bs : Octets) : ofNat bs.length (toNat bs) = bs := by
  induction bs using List.reverseRecOn with
  | nil => rfl
  | append_singleton bs b ih =>
    have hb := b.toNat_lt
    have hfront : (toNat bs * 256 + b.toNat) / 256 = toNat bs := by omega
    have hlast : UInt8.ofNat (toNat bs * 256 + b.toNat) = b := by
      rw [← UInt8.toNat_inj, UInt8.toNat_ofNat']
      omega
    rw [toNat_append_singleton, List.length_append, List.length_singleton, ofNat, hfront, hlast, ih]

theorem ofNatMinimal_toNat {b : UInt8} (hb : b ≠ 0) (bs : Octets) :
    ofNatMinimal (toNat (b :: bs)) = b :: bs := by
  have hpos : 1 ≤ b.toNat := Nat.one_le_iff_ne_zero.2 fun h => hb (UInt8.toNat_inj.1 h)
  have hle := width_le (toNat_lt (b :: bs))
  have hge : ¬ width (toNat (b :: bs)) ≤ bs.length := by
    intro hshort
    have hlt := (lt_pow_width (toNat (b :: bs))).trans_le (Nat.pow_le_pow_right (by decide) hshort)
    rw [toNat_cons] at hlt
    have := Nat.mul_le_mul_right (256 ^ bs.length) hpos
    omega
  have hwidth : width (toNat (b :: bs)) = (b :: bs).length := by
    rw [List.length_cons] at hle ⊢
    omega
  rw [ofNatMinimal, hwidth, ofNat_toNat]

end Octets

namespace Der

/-- The content of a number that is not negative is the one that is written for it, if it has no
redundant octets. -/
theorem naturalContent_toNat {b : UInt8} {bs : Octets}
    (hcontent : isIntegerContent (b :: bs) = true) (hb : b < 0x80) :
    naturalContent (Octets.toNat (b :: bs)) = b :: bs := by
  by_cases hzero : b = 0
  · subst hzero
    have hskip : Octets.toNat (0 :: bs) = Octets.toNat bs := by simp [Octets.toNat]
    rw [hskip]
    cases bs with
    | nil => rfl
    | cons c bs =>
      -- the zero octet is there since the number would look negative
      have hc : ¬ c < 0x80 := by
        simp only [isIntegerContent, beq_self_eq_true, Bool.true_and, Bool.and_eq_true,
          Bool.not_eq_true', decide_eq_false_iff_not] at hcontent
        exact hcontent.1
      have hne : c ≠ 0 := by
        rintro rfl
        exact hc (by decide)
      rw [naturalContent, Octets.ofNatMinimal_toNat hne]
      exact if_neg hc
  · rw [naturalContent, Octets.ofNatMinimal_toNat hzero]
    exact if_pos hb

end Der

/-! ### Roots of the curve's equation -/

namespace Modular

theorem powOnto_lt {m acc : Nat} (hacc : acc < m) (base exponent : Nat) :
    powOnto m acc base exponent < m := by
  fun_induction powOnto m acc base exponent with
  | case1 => exact hacc
  | case2 acc base exponent _ ih =>
    refine ih ?_
    split
    · exact Nat.mod_lt _ (Nat.zero_lt_of_lt hacc)
    · exact hacc

theorem pow_lt {m : Nat} (hm : 0 < m) (base exponent : Nat) : pow m base exponent < m :=
  powOnto_lt (Nat.mod_lt _ hm) _ _

end Modular

namespace Curve

variable {c : Curve} {x y : Nat}

theorem prime_pos (c : Curve) : 0 < c.prime := by cases c <;> decide +kernel

theorem prime_odd (c : Curve) : c.prime % 2 = 1 := by cases c <;> decide +kernel

theorem prime_lt (c : Curve) : c.prime < 256 ^ c.fieldOctets := by cases c <;> decide +kernel

theorem lt_of_contains (h : c.contains x y = true) : x < c.prime ∧ y < c.prime := by
  simp only [contains, Bool.and_eq_true, decide_eq_true_eq] at h
  exact h.1

/-- The point that is found has one of two roots that add up to the prime. -/
theorem of_ordinate? {odd : Bool} (h : c.ordinate? x odd = some y) : c.contains x y = true ∧
    ∃ root < c.prime, y = if (root % 2 == 1) = odd then root else c.prime - root := by
  unfold ordinate? at h
  dsimp only at h
  obtain ⟨hcontains, hy⟩ := Option.ite_none_right_eq_some.1 h
  rw [Option.some.inj hy] at hcontains
  exact ⟨hcontains, _, Modular.pow_lt (prime_pos c) _ _, (Option.some.inj hy).symm⟩

/-- It has the parity that was asked for. -/
theorem parity_of_ordinate? {odd : Bool} (h : c.ordinate? x odd = some y) : (y % 2 == 1) = odd := by
  obtain ⟨hcontains, root, hroot, hy⟩ := of_ordinate? h
  have hlt := (lt_of_contains hcontains).2
  have hprime := prime_odd c
  split at hy
  · next hparity => rwa [hy]
  · next hparity =>
    -- the prime is odd, so the two roots are not of the same parity
    cases odd
    · simp only [beq_eq_false_iff_ne, ne_eq] at hparity ⊢
      omega
    · simp only [beq_iff_eq] at hparity ⊢
      omega

/-- A coordinate that is written is read back. -/
theorem toNat_coordinate (h : x < c.prime) : Octets.toNat (Octets.ofNat c.fieldOctets x) = x := by
  rw [Octets.toNat_ofNat, Nat.mod_eq_of_lt (h.trans (prime_lt c))]

end Curve

namespace PublicKey

/-! ### Keys that can be read -/

def IsSound : PublicKey → Prop
  | rsa _ _ => True
  | ec c .compressed x y => c.ordinate? x (y % 2 == 1) = some y
  | ec c _ x y => c.contains x y = true
  | ed25519 point => point.length = 32

def ofBits? (algorithm : AlgorithmIdentifier) (bits : Octets) : Option PublicKey :=
  if algorithm.oid = rsaOid then rsaOfBits? bits
  else if algorithm.oid = ecOid then do
    let parameters ← algorithm.parameters
    if parameters.isUniversal 6 false then pointOfBits? (← curveOfOid? parameters.content) bits
    else none
  else if algorithm.oid = ed25519Oid ∧ algorithm.parameters.isNone ∧
    bits.length = 32 then some (.ed25519 bits)
  else none

theorem ofKeyInfo?_eq_some_iff {bs : Octets} {key : PublicKey} : ofKeyInfo? bs = some key ↔
    ∃ e rest algorithm inner bits unread, Element.numbered 16 bs = some (e, rest) ∧
      AlgorithmIdentifier.read e.content = some (algorithm, inner) ∧
      BitString.read inner = some (bits, unread) ∧ ofBits? algorithm bits.octets = some key := by
  unfold ofKeyInfo?
  simp only [Option.bind_eq_bind, Option.bind_eq_some_iff, Prod.exists]
  constructor
  · rintro ⟨e, rest, he, algorithm, inner, halgorithm, bits, unread, hbits, hkey⟩
    exact ⟨e, rest, algorithm, inner, bits, unread, he, halgorithm, hbits, hkey⟩
  · rintro ⟨e, rest, algorithm, inner, bits, unread, he, halgorithm, hbits, hkey⟩
    exact ⟨e, rest, he, algorithm, inner, halgorithm, bits, unread, hbits, hkey⟩

theorem isSound_of_rsaOfBits? {bits : Octets} {key : PublicKey} (h : rsaOfBits? bits = some key) :
    key.IsSound := by
  obtain ⟨⟨e, rest⟩, -, he⟩ := Option.bind_eq_some_iff.1 h
  obtain ⟨parts, -, hparts⟩ := Option.bind_eq_some_iff.1 he
  split at hparts
  · split at hparts
    · cases hparts
      trivial
    · cases hparts
  · cases hparts

theorem isSound_of_pointOfBits? {c : Curve} {bits : Octets} {key : PublicKey}
    (h : pointOfBits? c bits = some key) : key.IsSound := by
  cases bits with
  | nil => cases h
  | cons lead coordinates =>
    simp only [pointOfBits?] at h
    split at h
    · -- one coordinate, and the parity of the other
      split at h
      · cases h
      · obtain ⟨y, hy, rfl⟩ := Option.map_eq_some_iff.1 h
        rwa [IsSound, Curve.parity_of_ordinate? hy]
    · split at h
      · cases h
      · next hcontains =>
        rw [not_or, Bool.not_eq_true', Bool.not_eq_false] at hcontains
        split at h
        · cases h
          exact hcontains.2
        · split at h
          · cases h
            exact hcontains.2
          · cases h

theorem isSound_of_ofBits? {algorithm : AlgorithmIdentifier} {bits : Octets} {key : PublicKey}
    (h : ofBits? algorithm bits = some key) : key.IsSound := by
  unfold ofBits? at h
  split at h
  · exact isSound_of_rsaOfBits? h
  · split at h
    · obtain ⟨parameters, -, hpoint⟩ := Option.bind_eq_some_iff.1 h
      split at hpoint
      · obtain ⟨c, -, hpoint⟩ := Option.bind_eq_some_iff.1 hpoint
        exact isSound_of_pointOfBits? hpoint
      · cases hpoint
    · split at h
      · next hed =>
        cases h
        exact hed.2.2
      · cases h

theorem isSound_of_ofKeyInfo? {bs : Octets} {key : PublicKey} (h : ofKeyInfo? bs = some key) :
    key.IsSound := by
  obtain ⟨e, rest, algorithm, inner, bits, unread, -, -, -, hkey⟩ := ofKeyInfo?_eq_some_iff.1 h
  exact isSound_of_ofBits? hkey

/-! ### Reading what is written -/

theorem numbered_write {lead : UInt8} (hlead : lead.toNat % 32 ≠ 31) {content : Octets}
    (hlen : content.length < 0x10000000000000000) (rest : Octets) :
    Element.numbered (lead.toNat % 32) (Der.write lead content ++ rest) =
      some (element lead content, rest) := by
  unfold Element.numbered
  rw [(Der.takes_read hlead hlen).2 rest]
  exact if_pos rfl

theorem primitive_write {lead : UInt8} (hlead : lead.toNat < 31) {content : Octets}
    (hlen : content.length < 0x10000000000000000) (rest : Octets) :
    Element.primitive lead.toNat (Der.write lead content ++ rest) =
      some (element lead content, rest) := by
  have hnumbered := numbered_write (show lead.toNat % 32 ≠ 31 by omega) hlen rest
  rw [Nat.mod_eq_of_lt (by omega)] at hnumbered
  have hpiece : (element lead content).constructed = false := by
    rw [element, decide_eq_false_iff_not]
    omega
  unfold Element.primitive
  simp only [hnumbered, Option.bind_eq_bind, Option.bind_some, hpiece, Bool.false_eq_true, if_false]

theorem algorithm_write {oid : Octets} {parameters : List Octets}
    (hlen : (Der.writeSequence (Der.writeOid oid :: parameters)).length < 0x10000000000000000)
    (rest : Octets) :
    AlgorithmIdentifier.read (Der.writeSequence (Der.writeOid oid :: parameters) ++ rest) =
      some (⟨oid, (Element.read parameters.flatten).map (·.1)⟩, rest) := by
  have hoid := Ber.length_content_lt (Ber.length_part_lt hlen List.mem_cons_self)
  have hsequence :=
    numbered_write (show (0x30 : UInt8).toNat % 32 ≠ 31 by decide) (Ber.length_content_lt hlen) rest
  have hprimitive :=
    primitive_write (show (0x06 : UInt8).toNat < 31 by decide) hoid parameters.flatten
  unfold AlgorithmIdentifier.read
  rw [Der.writeSequence]
  simp only [show (0x30 : UInt8).toNat % 32 = 16 from rfl] at hsequence
  simp only [show (0x06 : UInt8).toNat = 6 from rfl] at hprimitive
  rw [hsequence]
  simp only [Option.bind_eq_bind, Option.bind_some, element, List.flatten_cons, Der.writeOid,
    hprimitive, Option.pure_def]

theorem bits_write {bits : Octets} (hlen : (Der.writeBits bits).length < 0x10000000000000000)
    (rest : Octets) : BitString.read (Der.writeBits bits ++ rest) = some (⟨0, bits⟩, rest) := by
  have hcontent : BitString.ofContent? (0 :: bits) = some ⟨0, bits⟩ := by
    cases bits with
    | nil => rfl
    | cons b bits => simp [BitString.ofContent?, Nat.mod_one]
  have hprimitive :=
    primitive_write (show (0x03 : UInt8).toNat < 31 by decide) (Ber.length_content_lt hlen) rest
  simp only [show (0x03 : UInt8).toNat = 3 from rfl] at hprimitive
  unfold BitString.read
  rw [Der.writeBits, hprimitive]
  simp only [Option.bind_eq_bind, Option.bind_some, element, hcontent, Option.pure_def]

/-- A key info that is written has the key that its parts have. -/
theorem ofKeyInfo?_write {oid : Octets} {parameters : List Octets} {bits : Octets} {key : PublicKey}
    (hlen : (Der.writeSequence [Der.writeSequence (Der.writeOid oid :: parameters),
      Der.writeBits bits]).length < 0x10000000000000000)
    (h : ofBits? ⟨oid, (Element.read parameters.flatten).map (·.1)⟩ bits = some key) :
    ofKeyInfo? (Der.writeSequence [Der.writeSequence (Der.writeOid oid :: parameters),
      Der.writeBits bits]) = some key := by
  have halgorithm :=
    algorithm_write (Ber.length_part_lt hlen List.mem_cons_self) (Der.writeBits bits)
  have hbits := bits_write (Ber.length_part_lt hlen (List.mem_cons_of_mem _ List.mem_cons_self)) []
  have hsequence :=
    numbered_write (show (0x30 : UInt8).toNat % 32 ≠ 31 by decide) (Ber.length_content_lt hlen) []
  simp only [show (0x30 : UInt8).toNat % 32 = 16 from rfl, List.append_nil] at hsequence
  rw [List.append_nil] at hbits
  refine ofKeyInfo?_eq_some_iff.2 ⟨_, _, _, _, _, _, hsequence, ?_, hbits, h⟩
  rw [element, List.flatten_cons, List.flatten_cons, List.flatten_nil, List.append_nil]
  exact halgorithm

theorem rsaOfBits?_write {n e : Nat}
    (hlen : (Der.writeSequence [Der.writeNatural n, Der.writeNatural e]).length <
      0x10000000000000000) :
    rsaOfBits? (Der.writeSequence [Der.writeNatural n, Der.writeNatural e]) = some (.rsa n e) := by
  have hvalue : ∀ n, Octets.toNat (Der.naturalContent n) = n := by
    intro n
    obtain ⟨b, bs, hcontent, -, hvalue, -⟩ := Der.naturalContent_spec n
    rw [hcontent, hvalue]
  have hall : Element.all ([element 0x02 (Der.naturalContent n),
    element 0x02 (Der.naturalContent e)].map Element.raw).flatten =
      some [element 0x02 (Der.naturalContent n), element 0x02 (Der.naturalContent e)] := by
    refine Reader.all_map_raw fun x hx => ?_
    simp only [List.mem_cons, List.not_mem_nil, or_false] at hx
    rcases hx with rfl | rfl
    · exact Der.takes_read (by decide)
        (Ber.length_content_lt (Ber.length_part_lt hlen List.mem_cons_self))
    · exact Der.takes_read (by decide)
        (Ber.length_content_lt
          (Ber.length_part_lt hlen (List.mem_cons_of_mem _ List.mem_cons_self)))
  have hread :=
    (Der.takes_read (show (0x30 : UInt8).toNat % 32 ≠ 31 by decide) (Ber.length_content_lt hlen)).2
    []
  rw [List.append_nil] at hread
  have hsequence : (element 0x30 [Der.writeNatural n, Der.writeNatural e].flatten).sequence? =
      some [element 0x02 (Der.naturalContent n), element 0x02 (Der.naturalContent e)] := hall
  unfold rsaOfBits?
  rw [Der.writeSequence, hread]
  simp only [Option.bind_eq_bind, Option.map_some, Option.bind_some, hsequence]
  rw [if_pos (by rfl)]
  simp only [element, hvalue]

theorem pointOfBits?_pointBits {c : Curve} {form : PointForm} {x y : Nat}
    (h : (ec c form x y).IsSound) :
    pointOfBits? c (pointBits c form x y) = some (.ec c form x y) := by
  have hcontains : c.contains x y = true := by
    cases form
    · exact (Curve.of_ordinate? h).1
    · exact h
    · exact h
  obtain ⟨hx, hy⟩ := Curve.lt_of_contains hcontains
  have hlen : ∀ n, (Octets.ofNat c.fieldOctets n).length = c.fieldOctets :=
    fun n => Octets.length_ofNat _ n
  have htake : (Octets.ofNat c.fieldOctets x ++ Octets.ofNat c.fieldOctets y).take c.fieldOctets =
      Octets.ofNat c.fieldOctets x := List.take_left' (hlen x)
  have hdrop : (Octets.ofNat c.fieldOctets x ++ Octets.ofNat c.fieldOctets y).drop c.fieldOctets =
      Octets.ofNat c.fieldOctets y := List.drop_left' (hlen x)
  have hboth : ¬((Octets.ofNat c.fieldOctets x ++ Octets.ofNat c.fieldOctets y).length ≠
      2 * c.fieldOctets ∨ !c.contains x y) := by
    rw [List.length_append, hlen, hlen, hcontains]
    simp [Nat.two_mul]
  cases form with
  | compressed =>
    have hlead : 2 + UInt8.ofNat (y % 2) = 2 ∨ 2 + UInt8.ofNat (y % 2) = 3 := by
      rcases Nat.mod_two_eq_zero_or_one y with hmod | hmod <;> simp [hmod]
    have hodd : (2 + UInt8.ofNat (y % 2) == 3) = (y % 2 == 1) := by
      rcases Nat.mod_two_eq_zero_or_one y with hmod | hmod <;> simp [hmod]
    simp only [pointBits, pointOfBits?]
    rw [if_pos hlead, List.take_of_length_le (hlen x).le, Curve.toNat_coordinate hx,
      if_neg (not_or.2 ⟨not_not.2 (hlen x), Nat.not_le.2 hx⟩), hodd, h]
    rfl
  | uncompressed =>
    simp only [pointBits, pointOfBits?]
    rw [if_neg (by decide), htake, hdrop, Curve.toNat_coordinate hx, Curve.toNat_coordinate hy,
      if_neg hboth, if_pos trivial]
  | hybrid =>
    have hlead : ¬(6 + UInt8.ofNat (y % 2) = 2 ∨ 6 + UInt8.ofNat (y % 2) = 3) ∧
      6 + UInt8.ofNat (y % 2) ≠ 4 := by
      rcases Nat.mod_two_eq_zero_or_one y with hmod | hmod <;> simp [hmod]
    simp only [pointBits, pointOfBits?]
    rw [if_neg hlead.1, htake, hdrop, Curve.toNat_coordinate hx, Curve.toNat_coordinate hy,
      if_neg hboth, if_neg hlead.2, if_pos rfl]

theorem curveOfOid?_curveOid (c : Curve) : curveOfOid? (curveOid c) = some c := by cases c <;> rfl

/-- A key that satisfies the conditions of its kind is read again from its own encoding. -/
theorem ofKeyInfo?_keyInfo {key : PublicKey} (h : key.IsSound)
    (hlen : key.keyInfo.length < 0x10000000000000000) : ofKeyInfo? key.keyInfo = some key := by
  cases key with
  | rsa n e =>
    have hbits := Ber.length_part_lt hlen (List.mem_cons_of_mem _ List.mem_cons_self)
    have hsequence := Nat.lt_of_succ_lt (Ber.length_content_lt hbits)
    refine ofKeyInfo?_write hlen ?_
    rw [ofBits?, if_pos rfl]
    exact rsaOfBits?_write hsequence
  | ec c form x y =>
    refine ofKeyInfo?_write hlen ?_
    have hcurve : (curveOid c).length < 0x10000000000000000 := by cases c <;> decide
    have hparameters : Element.read ([Der.writeOid (curveOid c)].flatten) =
      some (element 0x06 (curveOid c), []) :=
      (Der.takes_read (show (0x06 : UInt8).toNat % 32 ≠ 31 by decide) hcurve).2 []
    rw [hparameters]
    unfold ofBits?
    dsimp only [Option.map_some, Option.bind_eq_bind, Option.bind_some]
    rw [if_neg (show ecOid ≠ rsaOid by decide), if_pos rfl, if_pos (by rfl)]
    change (curveOfOid? (curveOid c)).bind _ = _
    rw [curveOfOid?_curveOid]
    exact pointOfBits?_pointBits h
  | ed25519 point =>
    refine ofKeyInfo?_write hlen ?_
    unfold ofBits?
    dsimp only
    rw [if_neg (show ed25519Oid ≠ rsaOid by decide), if_neg (show ed25519Oid ≠ ecOid by decide)]
    exact if_pos ⟨rfl, rfl, h⟩

theorem reencode?_eq_some_iff {bs written : Octets} : Cryptography.reencode? bs = some written ↔
    ∃ key, ofKeyInfo? bs = some key ∧ key.keyInfo = written := by
  unfold Cryptography.reencode?
  rw [Option.bind_eq_some_iff]
  exact exists_congr fun key => and_congr_right fun _ => ⟨Option.some.inj, congrArg some⟩

end PublicKey

/-- Whatever a key is read from, its own encoding satisfies the conditions of its kind. -/
instance : LawfulCryptography where
  isOwnEncoding h hlen := by
    obtain ⟨key, hkey, rfl⟩ := PublicKey.reencode?_eq_some_iff.1 h
    exact PublicKey.reencode?_eq_some_iff.2
      ⟨key, PublicKey.ofKeyInfo?_keyInfo (PublicKey.isSound_of_ofKeyInfo? hkey) hlen, rfl⟩

end AttestedKey
