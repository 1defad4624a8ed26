import AttestedKey.Proofs.CertificateForm

/-! Certificates that are written again. A strict encoder gives back a certificate that is its own
encoding (`IsOwn`), and stays so. What is read out of an envelope or a block of text is written
with the shortest lengths and with unused bits that are zero (`Conformance.rewritten?`); an own
encoding is so already but for unused bits, and an own encoding is what comes of it:
`exists_rewritten`. -/

namespace AttestedKey

open Der (Element element)

namespace Conformance

namespace Parts

theorem clearedLast_cons {unused : UInt8} {bs : Octets} (hne : bs ≠ []) (b : UInt8) :
    clearedLast unused (b :: bs) = b :: clearedLast unused bs := clearedLast.eq_3 _ _ _ hne

theorem length_clearedLast (unused : UInt8) (bs : Octets) :
    (clearedLast unused bs).length = bs.length := by
  fun_induction clearedLast unused bs <;> simp_all

theorem clearedLast_ne_nil {bs : Octets} (hne : bs ≠ []) (unused : UInt8) :
    clearedLast unused bs ≠ [] := by
  rw [← List.length_pos_iff, length_clearedLast, List.length_pos_iff]
  exact hne

theorem clearedLast_clearedLast (unused : UInt8) (bs : Octets) :
    clearedLast unused (clearedLast unused bs) = clearedLast unused bs := by
  fun_induction clearedLast unused bs with
  | case1 => rfl
  | case2 b => rw [clearedLast, UInt8.and_assoc, UInt8.and_self]
  | case3 b bs hne ih => rw [clearedLast_cons (clearedLast_ne_nil hne unused), ih]

theorem length_clearedBits (content : Octets) : (clearedBits content).length = content.length := by
  fun_cases clearedBits content <;> simp [length_clearedLast]

theorem clearedBits_cons {unused : UInt8} {bs : Octets} (hne : bs ≠ []) :
    clearedBits (unused :: bs) = unused :: clearedLast unused bs := clearedBits.eq_3 _ _ hne

theorem clearedBits_clearedBits (content : Octets) :
    clearedBits (clearedBits content) = clearedBits content := by
  fun_cases clearedBits content with
  | case1 => rfl
  | case2 => rfl
  | case3 unused bs hne =>
    rw [clearedBits_cons (clearedLast_ne_nil hne unused), clearedLast_clearedLast]

theorem isBitsContent_clearedBits {content : Octets} (h : isBitsContent content = true) :
    isBitsContent (clearedBits content) = true := by
  fun_cases clearedBits content with
  | case1 => exact h
  | case2 => rfl
  | case3 unused bs => exact h

/-- The unused bits are zero, of a parameter of the algorithm as of the signature. -/
def HasClearBits (p : Parts) : Prop :=
  (∀ e ∈ p.algorithm.sequence?.getD [], e.isUniversal 3 false = true →
    clearedBits e.content = e.content) ∧
    clearedBits p.signature.content = p.signature.content

instance (p : Parts) : Decidable p.HasClearBits := inferInstanceAs (Decidable (_ ∧ _))

end Parts

/-- What is written for a certificate that is read out of an envelope or a block of text. -/
def rewritten? (bs : Octets) : Option Octets := (Parts.ofFront? bs).map Parts.encoding

def HasClearBits (bs : Octets) : Prop := ∀ p ∈ Parts.ofFront? bs, p.HasClearBits

instance (bs : Octets) : Decidable (HasClearBits bs) := inferInstanceAs (Decidable (∀ p ∈ _, _))

end Conformance

namespace Canonical

open Conformance.Parts (clearedBits)

def whole? (e : Element) : Option Octets := do
  match ← sequence? e with
  | [signed, algorithm, signature] =>
    if isAlgorithm algorithm && isBits signature then
      pure (Der.writeSequence [← signed? signed, algorithm.raw, signature.raw])
    else none
  | _ => none

theorem certificate?_eq_some_iff {der x : Octets} :
    certificate? der = some x ↔ ∃ e : Element, IsTaken e ∧ der = e.raw ∧ whole? e = some x := by
  constructor
  · intro h
    obtain ⟨⟨e, rest⟩, hread, hrest⟩ := Option.bind_eq_some_iff.1 h
    obtain ⟨he, hder⟩ := of_readAny hread
    cases rest with
    | nil => exact ⟨e, he, by rw [hder, List.append_nil], hrest⟩
    | cons b rest => cases hrest
  · rintro ⟨e, he, rfl, h⟩
    have hread := he.readAny.2 []
    rw [List.append_nil] at hread
    unfold certificate?
    rw [hread]
    exact h

theorem eq_element {e : Element} (h : IsTaken e) {tag : Nat} {constructed : Bool}
    (he : e.isUniversal tag constructed = true) (lead : UInt8)
    (hlead : lead.toNat = tag + if constructed then 32 else 0) : e = element lead e.content := by
  obtain ⟨lead', content, hlow, -, rfl, -⟩ := h
  simp only [Element.isUniversal, element, Bool.and_eq_true, beq_iff_eq] at he
  obtain ⟨⟨hclass, htag⟩, hconstructed⟩ := he
  have hhigh : lead'.toNat / 64 = 0 := by
    unfold Ber.tagClass at hclass
    split at hclass
    · assumption
    all_goals cases hclass
  have hlead' : lead' = lead := by
    rw [← UInt8.toNat_inj, hlead, ← htag, ← hconstructed]
    by_cases hbit : lead'.toNat / 32 % 2 = 1
    · simp [hbit]
      omega
    · simp [hbit]
      omega
  rw [hlead']
  rfl

/-- A bit string with unused bits that are zero, and any other element as it is. -/
def cleared (e : Element) : Element :=
  if e.isUniversal 3 false then element 0x03 (clearedBits e.content) else e

theorem cleared_of_bits {e : Element} (h : e.isUniversal 3 false = true) :
    cleared e = element 0x03 (clearedBits e.content) := if_pos h

theorem cleared_of_not_bits {e : Element} (h : ¬ e.isUniversal 3 false = true) : cleared e = e :=
  if_neg h

theorem IsTaken.cleared {e : Element} (h : IsTaken e) : IsTaken (cleared e) := by
  by_cases hbits : e.isUniversal 3 false = true
  · rw [cleared_of_bits hbits]
    obtain ⟨lead, content, -, hlen, rfl, -⟩ := h
    exact ⟨0x03, _, by decide, by rwa [Conformance.Parts.length_clearedBits], rfl, rfl⟩
  · rwa [cleared_of_not_bits hbits]

theorem cleared_cleared (e : Element) : cleared (cleared e) = cleared e := by
  by_cases hbits : e.isUniversal 3 false = true
  · rw [cleared_of_bits hbits, cleared_of_bits (by rfl)]
    exact congrArg _ (Conformance.Parts.clearedBits_clearedBits _)
  · rw [cleared_of_not_bits hbits, cleared_of_not_bits hbits]

theorem length_raw_cleared {e : Element} (h : IsTaken e) :
    (cleared e).raw.length = e.raw.length := by
  by_cases hbits : e.isUniversal 3 false = true
  · have hraw : e.raw = Der.write 0x03 e.content :=
      congrArg Element.raw (eq_element h hbits 0x03 rfl)
    rw [cleared_of_bits hbits, hraw]
    simp [Der.write, Conformance.Parts.length_clearedBits]
  · rw [cleared_of_not_bits hbits]

/-- Only elements whose unused bits are zero are left as they are. -/
theorem cleared_eq_iff {e : Element} (h : IsTaken e) :
    cleared e = e ↔ (e.isUniversal 3 false = true → clearedBits e.content = e.content) := by
  by_cases hbits : e.isUniversal 3 false = true
  · rw [cleared_of_bits hbits]
    constructor
    · intro heq _
      exact congrArg Element.content heq
    · intro hclear
      rw [hclear hbits]
      exact (eq_element h hbits 0x03 rfl).symm
  · simp [cleared_of_not_bits hbits, hbits]

/-- A value in its shortest encoding is written again as it is, but for unused bits. -/
theorem shortened_eq {e : Element} (h : IsTaken e) :
    Conformance.Parts.shortened e = (cleared e).raw := by
  unfold Conformance.Parts.shortened
  split
  · next hother =>
    have hbits : ¬ e.isUniversal 3 false = true := by
      intro hbits
      simp only [Element.isUniversal, Bool.and_eq_true, beq_iff_eq] at hbits
      simp [hbits.1.1, hbits.1.2] at hother
    rw [cleared_of_not_bits hbits]
  · next hother =>
    simp only [Bool.or_eq_true, decide_eq_true_eq, beq_iff_eq, not_or, not_not] at hother
    obtain ⟨⟨hclass, hsequence⟩, hset⟩ := hother
    obtain ⟨lead, content, hlow, -, he, hknown⟩ := id h
    have htag : e.tag < 31 := by
      rw [he]
      change lead.toNat % 32 < 31
      omega
    -- the only universal types of more than one piece are those two
    have hprimitive : e.constructed = false := by
      rw [Bool.eq_false_iff]
      intro hconstructed
      simp [isKnownTag, hclass, hconstructed, hsequence, hset] at hknown
    have huniversal : e.isUniversal e.tag false = true := by
      simp [Element.isUniversal, hclass, hprimitive]
    have hlead : (UInt8.ofNat e.tag).toNat = e.tag + if false then 32 else 0 := by
      rw [UInt8.toNat_ofNat']
      simp only [Bool.false_eq_true, if_false]
      omega
    have hwhole : (Conformance.stringContent? e).getD e.content = e.content := by
      simp [Conformance.stringContent?, hprimitive]
    rw [hwhole, Conformance.Parts.identifier, if_pos htag]
    by_cases hthree : e.tag = 3
    · have hbits : e.isUniversal 3 false = true := hthree ▸ huniversal
      rw [cleared_of_bits hbits, hthree]
      rfl
    · have hbits : ¬ e.isUniversal 3 false = true := by
        simp [Element.isUniversal, hthree]
      dsimp only
      rw [cleared_of_not_bits hbits, if_neg hthree]
      exact (congrArg Element.raw (eq_element h huniversal _ hlead)).symm

/-! ### Own encodings -/

/-- The parts of a certificate that conforms and is its own encoding. -/
structure IsOwn (signed algorithm signature : Element) : Prop where
  taken : ∀ e ∈ [signed, algorithm, signature], IsTaken e
  fixed : signed? signed = some signed.raw
  key : (Conformance.keyInfo? signed).isSome = true
  isAlgorithm : isAlgorithm algorithm = true
  conforms : Conformance.isAlgorithm algorithm = true
  isBits : isBits signature = true

def whole (signed algorithm signature : Element) : Element :=
  element 0x30 ([signed, algorithm, signature].map Element.raw).flatten

def clearedAlgorithm (algorithm : Element) : Element :=
  element 0x30 (((algorithm.sequence?.getD []).map cleared).map Element.raw).flatten

theorem isBitsContent_clearedBits {content : Octets} (h : isBitsContent content = true) :
    isBitsContent (clearedBits content) = true := by
  match content with
  | [] => exact h
  | [_] => rfl
  | unused :: b :: bs =>
    obtain ⟨c, cs, hcons⟩ := List.exists_cons_of_ne_nil
      (Conformance.Parts.clearedLast_ne_nil (List.cons_ne_nil b bs) unused)
    rw [Conformance.Parts.clearedBits_cons (List.cons_ne_nil b bs), hcons]
    exact h

theorem isBits_cleared {e : Element} (h : isBits e = true) : isBits (cleared e) = true := by
  obtain ⟨hbits, hcontent⟩ := Bool.and_eq_true_iff.1 h
  rw [cleared_of_bits hbits]
  exact isBitsContent_clearedBits hcontent

theorem isBits_conforms {e : Element} (h : isBits e = true) : Conformance.isBits e = true := by
  unfold isBits at h
  unfold Conformance.isBits
  rw [Bool.and_eq_true_iff] at h ⊢
  exact ⟨h.1, Layout.isBitsContent_conforms h.2⟩

theorem isAnyValue_cleared {e : Element} (h : Conformance.isAnyValue e = true) :
    Conformance.isAnyValue (cleared e) = true := by
  by_cases hbits : e.isUniversal 3 false = true
  · rw [cleared_of_bits hbits]
    simp only [Element.isUniversal, Bool.and_eq_true, beq_iff_eq] at hbits
    have hcontent : Conformance.isBitsContent e.content = true := by
      simpa [Conformance.isAnyValue, hbits.1.1, hbits.1.2, Conformance.stringContent?, hbits.2]
        using h
    exact Conformance.Parts.isBitsContent_clearedBits hcontent
  · rwa [cleared_of_not_bits hbits]

theorem cleared_of_isOid {e : Element} (h : isOid e = true) : cleared e = e := by
  refine cleared_of_not_bits fun hbits => ?_
  simp only [isOid, Element.isUniversal, Bool.and_eq_true, beq_iff_eq] at h hbits
  have htag := h.1.1.1.1.2.symm.trans hbits.1.2
  cases htag

section

variable {e : Element} {es : List Element} (hes : sequence? e = some es)
include hes

theorem clearedAlgorithm_eq :
    clearedAlgorithm e = element 0x30 ((es.map cleared).map Element.raw).flatten := by
  rw [clearedAlgorithm, element_sequence? hes, Option.getD_some]

theorem length_cleared_parts :
    ((es.map cleared).map Element.raw).flatten.length = e.content.length := by
  obtain ⟨-, htaken, hcontent⟩ := sequence?_eq_some_iff.1 hes
  have hlengths : ((es.map cleared).map Element.raw).map List.length =
    (es.map Element.raw).map List.length := by
    simp only [List.map_map]
    exact List.map_congr_left fun x hx => length_raw_cleared (htaken x hx)
  rw [hcontent, List.length_flatten, List.length_flatten, hlengths]

theorem isTaken_clearedAlgorithm (he : IsTaken e) : IsTaken (clearedAlgorithm e) := by
  obtain ⟨lead, content, -, hlen, rfl, -⟩ := he
  rw [clearedAlgorithm_eq hes]
  exact ⟨0x30, _, by decide, (length_cleared_parts hes).trans_lt hlen, rfl, rfl⟩

theorem sequence?_clearedAlgorithm : sequence? (clearedAlgorithm e) = some (es.map cleared) := by
  rw [clearedAlgorithm_eq hes]
  refine sequence?_element fun x hx => ?_
  obtain ⟨y, hy, rfl⟩ := List.mem_map.1 hx
  exact ((sequence?_eq_some_iff.1 hes).2.1 y hy).cleared

/-- Where nothing is to be cleared, the algorithm is left as it is. -/
theorem clearedAlgorithm_eq_self (he : IsTaken e) (hclear : ∀ x ∈ es, cleared x = x) :
    clearedAlgorithm e = e := by
  obtain ⟨huniversal, -, hcontent⟩ := sequence?_eq_some_iff.1 hes
  rw [clearedAlgorithm_eq hes, List.map_congr_left hclear, List.map_id', ← hcontent]
  exact (eq_element he huniversal 0x30 rfl).symm

theorem length_raw_clearedAlgorithm (he : IsTaken e) :
    (clearedAlgorithm e).raw.length = e.raw.length := by
  have hraw : e.raw = Der.write 0x30 e.content :=
    congrArg Element.raw (eq_element he (sequence?_eq_some_iff.1 hes).1 0x30 rfl)
  have hlength := length_cleared_parts hes
  rw [clearedAlgorithm_eq hes, hraw]
  simp only [Der.raw_element, Der.write, List.length_cons, List.length_append, hlength]

end

theorem exists_sequence_of_isAlgorithm {e : Element} (h : isAlgorithm e = true) :
    ∃ es, sequence? e = some es := by
  unfold isAlgorithm at h
  cases hes : sequence? e with
  | none => simp [hes] at h
  | some es => exact ⟨es, rfl⟩

theorem isAlgorithm_cleared {e : Element} (h : isAlgorithm e = true) :
    isAlgorithm (clearedAlgorithm e) = true := by
  obtain ⟨es, hes⟩ := exists_sequence_of_isAlgorithm h
  unfold isAlgorithm at h ⊢
  rw [hes] at h
  rw [sequence?_clearedAlgorithm hes]
  match es with
  | [oid] => simpa [cleared_of_isOid h] using h
  | [oid, _] => simpa [cleared_of_isOid h] using h

theorem isAlgorithm_conforms_cleared {e : Element} (h : isAlgorithm e = true)
    (hconforms : Conformance.isAlgorithm e = true) :
    Conformance.isAlgorithm (clearedAlgorithm e) = true := by
  obtain ⟨es, hes⟩ := exists_sequence_of_isAlgorithm h
  unfold isAlgorithm at h
  unfold Conformance.isAlgorithm at hconforms ⊢
  rw [hes] at h
  rw [element_sequence? hes] at hconforms
  rw [element_sequence? (sequence?_clearedAlgorithm hes)]
  match es with
  | [oid] => simpa [cleared_of_isOid h] using hconforms
  | [oid, parameters] =>
    rw [Bool.and_eq_true_iff] at hconforms
    simp [cleared_of_isOid h, hconforms.1, isAnyValue_cleared hconforms.2]

namespace IsOwn

variable {signed algorithm signature : Element} (h : IsOwn signed algorithm signature)
include h

theorem isTaken_signed : IsTaken signed := h.taken _ (by simp)

theorem isTaken_algorithm : IsTaken algorithm := h.taken _ (by simp)

theorem isTaken_signature : IsTaken signature := h.taken _ (by simp)

theorem cleared : IsOwn signed (clearedAlgorithm algorithm) (cleared signature) := by
  obtain ⟨es, hes⟩ := exists_sequence_of_isAlgorithm h.isAlgorithm
  exact {
    taken := by
      simp [h.isTaken_signed, isTaken_clearedAlgorithm hes h.isTaken_algorithm,
        h.isTaken_signature.cleared]
    fixed := h.fixed
    key := h.key
    isAlgorithm := isAlgorithm_cleared h.isAlgorithm
    conforms := isAlgorithm_conforms_cleared h.isAlgorithm h.conforms
    isBits := isBits_cleared h.isBits }

theorem length_whole_cleared :
    (whole signed (clearedAlgorithm algorithm) (Canonical.cleared signature)).raw.length =
      (whole signed algorithm signature).raw.length := by
  obtain ⟨es, hes⟩ := exists_sequence_of_isAlgorithm h.isAlgorithm
  have halgorithm := length_raw_clearedAlgorithm hes h.isTaken_algorithm
  have hsignature := length_raw_cleared h.isTaken_signature
  simp only [whole, Der.raw_element, Der.write, List.map_cons, List.map_nil, List.flatten_cons,
    List.flatten_nil, List.length_cons, List.length_append, List.append_nil, halgorithm, hsignature]

theorem sequence?_whole :
    sequence? (whole signed algorithm signature) = some [signed, algorithm, signature] :=
  sequence?_element h.taken

theorem exists_ofElement? :
    ∃ keyInfo, Conformance.Parts.ofElement? (whole signed algorithm signature) =
    some ⟨signed, algorithm, signature, keyInfo⟩ := by
  obtain ⟨keyInfo, hkeyInfo⟩ := Option.isSome_iff_exists.1 h.key
  refine ⟨keyInfo, ?_⟩
  unfold Conformance.Parts.ofElement?
  rw [element_sequence? h.sequence?_whole]
  simp [hkeyInfo, h.conforms, isBits_conforms h.isBits]

/-- What is written again for an own encoding: itself, but for unused bits. -/
theorem encoding_eq (keyInfo : Element) :
    Conformance.Parts.encoding ⟨signed, algorithm, signature, keyInfo⟩ =
    (whole signed (clearedAlgorithm algorithm) (Canonical.cleared signature)).raw := by
  obtain ⟨es, hes⟩ := exists_sequence_of_isAlgorithm h.isAlgorithm
  have htaken := (sequence?_eq_some_iff.1 hes).2.1
  have hshortened : es.map Conformance.Parts.shortened =
    (es.map Canonical.cleared).map Element.raw := by
    rw [List.map_map]
    exact List.map_congr_left fun x hx => shortened_eq (htaken x hx)
  have hbits := (Bool.and_eq_true_iff.1 h.isBits).1
  unfold Conformance.Parts.encoding
  rw [element_sequence? hes, Option.getD_some, hshortened, clearedAlgorithm_eq hes,
    cleared_of_bits hbits]
  rfl

/-- Nothing is to be cleared where the unused bits are zero. -/
theorem encoding_of_hasClearBits {keyInfo : Element}
    (hclear : Conformance.Parts.HasClearBits ⟨signed, algorithm, signature, keyInfo⟩) :
    Conformance.Parts.encoding ⟨signed, algorithm, signature, keyInfo⟩ =
      (whole signed algorithm signature).raw := by
  obtain ⟨es, hes⟩ := exists_sequence_of_isAlgorithm h.isAlgorithm
  obtain ⟨hparts, hsignature⟩ := hclear
  rw [element_sequence? hes, Option.getD_some] at hparts
  have hcleared : ∀ x ∈ es, Canonical.cleared x = x := fun x hx =>
    (cleared_eq_iff ((sequence?_eq_some_iff.1 hes).2.1 x hx)).2 (hparts x hx)
  rw [h.encoding_eq, clearedAlgorithm_eq_self hes h.isTaken_algorithm hcleared,
    (cleared_eq_iff h.isTaken_signature).2 fun _ => hsignature]

theorem hasClearBits_cleared (keyInfo : Element) : Conformance.Parts.HasClearBits
    ⟨signed, clearedAlgorithm algorithm, Canonical.cleared signature, keyInfo⟩ := by
  obtain ⟨es, hes⟩ := exists_sequence_of_isAlgorithm h.isAlgorithm
  have hpart := (sequence?_eq_some_iff.1 (sequence?_clearedAlgorithm hes)).2.1
  constructor
  · change ∀ x ∈ (clearedAlgorithm algorithm).sequence?.getD [], _
    rw [element_sequence? (sequence?_clearedAlgorithm hes), Option.getD_some]
    intro x hx
    refine (cleared_eq_iff (hpart x hx)).1 ?_
    obtain ⟨y, -, rfl⟩ := List.mem_map.1 hx
    exact cleared_cleared y
  · exact (cleared_eq_iff h.cleared.isTaken_signature).1 (cleared_cleared signature)
      (Bool.and_eq_true_iff.1 h.cleared.isBits).1

variable (hlen : (whole signed algorithm signature).raw.length < 0x10000000000000000)
include hlen

omit h in
theorem isTaken_whole : IsTaken (whole signed algorithm signature) :=
  isTaken_element (by decide) rfl hlen

theorem certificate?_whole : certificate? (whole signed algorithm signature).raw =
    some (whole signed algorithm signature).raw := by
  refine certificate?_eq_some_iff.2 ⟨_, isTaken_whole hlen, rfl, ?_⟩
  unfold whole?
  rw [h.sequence?_whole]
  simp only [Option.bind_eq_bind, Option.bind_some, h.isAlgorithm, h.isBits, Bool.and_self,
    if_true, h.fixed]
  rfl

theorem exists_ofFront? :
    ∃ keyInfo, Conformance.Parts.ofFront? (whole signed algorithm signature).raw =
    some ⟨signed, algorithm, signature, keyInfo⟩ := by
  have hread := (isTaken_whole hlen).read.2 []
  rw [List.append_nil] at hread
  obtain ⟨keyInfo, hkeyInfo⟩ := h.exists_ofElement?
  exact ⟨keyInfo, Option.bind_eq_some_iff.2 ⟨_, hread, hkeyInfo⟩⟩

theorem rewritten?_whole : Conformance.rewritten? (whole signed algorithm signature).raw =
    some (whole signed (clearedAlgorithm algorithm) (Canonical.cleared signature)).raw := by
  obtain ⟨keyInfo, hkeyInfo⟩ := h.exists_ofFront? hlen
  rw [Conformance.rewritten?, hkeyInfo, Option.map_some, h.encoding_eq]

end IsOwn

theorem conforms_of_isCertificate {e signed algorithm signature : Element} (he : IsTaken e)
    (hes : sequence? e = some [signed, algorithm, signature])
    (h : Conformance.isCertificate e.raw = true) :
    ∃ keyInfo, Conformance.keyInfo? signed = some keyInfo ∧
      (Conformance.isAlgorithm algorithm && Conformance.isBits signature) = true := by
  have hread := he.read.2 []
  rw [List.append_nil] at hread
  unfold Conformance.isCertificate Conformance.Parts.ofElement? at h
  simp only [hread, Option.map_some, element_sequence? hes, Option.bind_eq_bind, Option.bind_some]
    at h
  cases hkeyInfo : Conformance.keyInfo? signed with
  | none => simp [hkeyInfo] at h
  | some keyInfo =>
    refine ⟨keyInfo, rfl, ?_⟩
    by_contra hchecks
    simp [hkeyInfo, hchecks] at h

/-- What is given back for a certificate that conforms is an own encoding. -/
theorem exists_own {der x : Octets} (h : certificate? der = some x)
    (hlen : x.length < 0x10000000000000000) (hder : Conformance.isCertificate der = true) :
    ∃ signed algorithm signature, IsOwn signed algorithm signature ∧
      (whole signed algorithm signature).raw = x := by
  obtain ⟨e, he, rfl, hwhole⟩ := certificate?_eq_some_iff.1 h
  obtain ⟨es, hes, hcase⟩ := Option.bind_eq_some_iff.1 hwhole
  split at hcase
  · next signed algorithm signature =>
    split at hcase
    · next hchecks =>
      obtain ⟨signedForm, hsigned, hcase⟩ := Option.bind_eq_some_iff.1 hcase
      cases hcase
      have htaken := (sequence?_eq_some_iff.1 hes).2.1
      simp only [List.forall_mem_cons] at htaken
      obtain ⟨form, rfl, hform⟩ :=
        hasForms_signed _ _ htaken.1 hsigned (Ber.length_part_lt hlen (by simp))
      obtain ⟨keyInfo, hkeyInfo, hconforms⟩ := conforms_of_isCertificate he hes hder
      have hown := Bool.and_eq_true_iff.1 hchecks
      exact ⟨form, algorithm, signature, {
        taken := by simp [hform.taken, htaken.2.1, htaken.2.2.1]
        fixed := hform.fixed
        key := hform.conforms (by rw [hkeyInfo]; rfl)
        isAlgorithm := hown.1
        conforms := (Bool.and_eq_true_iff.1 hconforms).1
        isBits := hown.2 }, rfl⟩
    · cases hcase
  · cases hcase

/-- What is given back for a certificate that conforms, and what is written again for that, stay as
they are, but for unused bits of the first. -/
theorem exists_rewritten {der x : Octets} (h : certificate? der = some x)
    (hlen : x.length < 0x10000000000000000) (hder : Conformance.isCertificate der = true) :
    certificate? x = some x ∧ (∃ form : Element, IsTaken form ∧ form.raw = x) ∧
      (Conformance.HasClearBits x → Conformance.rewritten? x = some x) ∧
        ∃ y, Conformance.rewritten? x = some y ∧ certificate? y = some y ∧
          Conformance.HasClearBits y := by
  obtain ⟨signed, algorithm, signature, hown, rfl⟩ := exists_own h hlen hder
  have hlen' := hlen
  rw [← hown.length_whole_cleared] at hlen'
  refine ⟨hown.certificate?_whole hlen, ⟨_, IsOwn.isTaken_whole hlen, rfl⟩, fun hclear => ?_, _,
    hown.rewritten?_whole hlen, hown.cleared.certificate?_whole hlen', ?_⟩
  · obtain ⟨keyInfo, hkeyInfo⟩ := hown.exists_ofFront? hlen
    rw [Conformance.rewritten?, hkeyInfo, Option.map_some,
      hown.encoding_of_hasClearBits (hclear _ hkeyInfo)]
  · obtain ⟨keyInfo, hkeyInfo⟩ := hown.cleared.exists_ofFront? hlen'
    rintro p hp
    cases hkeyInfo.symm.trans hp
    exact hown.hasClearBits_cleared keyInfo

end Canonical

end AttestedKey
