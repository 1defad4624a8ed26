import AttestedKey.Chain.SignedData
import AttestedKey.Proofs.DerEncoding

/-! Elements as they are written: one identifier octet and the shortest length. Each of the three
readers of elements takes exactly such an element off the front, and the one that insists on this
form gives no other (`of_readAny`). So what it reads a content as is what the content is put
together from: `all_eq_some_iff`. -/

namespace AttestedKey

namespace Reader

variable {α : Type} {item : Reader α} {raw : α → Octets} {P : α → Prop}

theorem allWithin_eq_some
    (hgives : ∀ bs a rest, item bs = some (a, rest) → P a ∧ bs = raw a ++ rest) {n : Nat}
    {found as : List α} {bs : Octets} (h : allWithin item n found bs = some as) :
    ∃ more, as = found.reverse ++ more ∧ (∀ a ∈ more, P a) ∧ bs = (more.map raw).flatten := by
  induction n generalizing found bs with
  | zero =>
    cases bs with
    | nil => exact ⟨[], by simpa [allWithin, eq_comm] using h, by simp, rfl⟩
    | cons b bs => cases h
  | succ n ih =>
    cases bs with
    | nil => exact ⟨[], by simpa [allWithin, eq_comm] using h, by simp, rfl⟩
    | cons b bs =>
      rw [allWithin_cons] at h
      obtain ⟨⟨a, rest⟩, hread, h⟩ := Option.bind_eq_some_iff.1 h
      obtain ⟨ha, hbs⟩ := hgives _ _ _ hread
      obtain ⟨more, has, hmore, hrest⟩ := ih h
      refine ⟨a :: more, by simp [has], List.forall_mem_cons.2 ⟨ha, hmore⟩, ?_⟩
      rw [List.map_cons, List.flatten_cons, ← hrest, hbs]

theorem all_map_raw {as : List α} (h : ∀ a ∈ as, Takes item (raw a) (some a)) :
    all item (as.map raw).flatten = some as := by
  have htakes : List.Forall₂ (Takes item) (as.map raw) (as.map some) := by
    rw [List.forall₂_map_left_iff, List.forall₂_map_right_iff, List.forall₂_same]
    exact h
  rw [all_flatten htakes, Ber.mapM_id_map_some]

/-- Reading everything is the inverse of putting it together, if the reader takes back what it
gives. -/
theorem all_eq_some_iff (htakes : ∀ a, P a → Takes item (raw a) (some a))
    (hgives : ∀ bs a rest, item bs = some (a, rest) → P a ∧ bs = raw a ++ rest) {bs : Octets}
    {as : List α} : all item bs = some as ↔ (∀ a ∈ as, P a) ∧ bs = (as.map raw).flatten := by
  constructor
  · intro h
    obtain ⟨more, rfl, hmore, hbs⟩ := allWithin_eq_some hgives h
    exact ⟨hmore, hbs⟩
  · rintro ⟨has, rfl⟩
    exact all_map_raw fun a ha => htakes a (has a ha)

end Reader

namespace Der

def element (lead : UInt8) (content : Octets) : Element where
  tagClass := Ber.tagClass lead
  constructed := lead.toNat / 32 % 2 = 1
  tag := lead.toNat % 32
  header := lead :: writeLength content.length
  content := content

@[simp] theorem raw_element (lead : UInt8) (content : Octets) :
    (element lead content).raw = write lead content := rfl

theorem take_header (lead : UInt8) (content rest : Octets) :
    (write lead content ++ rest).take
    ((write lead content ++ rest).length - (content ++ rest).length) =
      (element lead content).header := by
  have hsplit : write lead content ++ rest = (element lead content).header ++
    (content ++ rest) := by
    simp [write, element]
  rw [hsplit, List.length_append, Nat.add_sub_cancel]
  exact List.take_left

section

variable {lead : UInt8} (hlead : lead.toNat % 32 ≠ 31) {content : Octets}
  (hlen : content.length < 0x10000000000000000)
include hlead hlen

theorem takes_read :
    Reader.Takes Element.read (write lead content) (some (element lead content)) := by
  refine ⟨by simp [write], fun rest => ?_⟩
  unfold Element.read
  simp only [Ber.header_write hlead hlen, Option.bind_eq_bind, Option.bind_some,
    Octets.split?_append, take_header]
  rfl

theorem takes_readElement :
    Reader.Takes SignedData.readElement (write lead content) (some (element lead content)) := by
  refine ⟨by simp [write], fun rest => ?_⟩
  unfold SignedData.readElement Ber.content Ber.maxDepth
  simp only [Ber.header_write hlead hlen, Option.bind_eq_bind, Option.bind_some,
    Octets.split?_append, take_header]
  rfl

end

end Der

namespace Ber

/-- No encoding of a length takes fewer octets than the one that is written. -/
theorem length_eq_some {n : Nat} {bs rest : Octets} (h : length bs = some (some n, rest)) :
    ∃ digits, bs = digits ++ rest ∧ (Der.writeLength n).length ≤ digits.length ∧
      n < 0x10000000000000000 := by
  cases bs with
  | nil => cases h
  | cons b bs =>
    rw [length] at h
    split at h
    · next hb =>
      cases h
      have hlt : b.toNat < 128 := UInt8.lt_iff_toNat_lt.1 hb
      refine ⟨[b], rfl, ?_, by omega⟩
      simp [Der.writeLength, hlt]
    · split at h
      · cases h
      · split at h
        · cases h
        · obtain ⟨⟨digits, after⟩, hsplit, hvalue⟩ := Option.bind_eq_some_iff.1 h
          obtain ⟨rfl, -⟩ := Octets.eq_append_of_split? hsplit
          dsimp only at hvalue
          split at hvalue
          · next hlt =>
            cases hvalue
            refine ⟨b :: digits, rfl, ?_, hlt⟩
            have hwidth := Octets.width_le (Octets.toNat_lt digits)
            unfold Der.writeLength
            split
            · simp
            · simpa [Octets.length_ofNatMinimal] using hwidth
          · cases hvalue

theorem tagDigits_eq_some {left high n : Nat} {bs rest : Octets}
    (h : tagDigits left high bs = some (n, rest)) :
    ∃ digits, bs = digits ++ rest ∧ digits ≠ [] := by
  induction left generalizing high bs with
  | zero => cases h
  | succ left ih =>
    cases bs with
    | nil => cases h
    | cons b bs =>
      rw [tagDigits] at h
      split at h
      · cases h
        exact ⟨[b], rfl, by simp⟩
      · obtain ⟨digits, rfl, -⟩ := ih h
        exact ⟨b :: digits, rfl, by simp⟩

/-- What stands before the content, and what it says, if the length is given. -/
theorem header_eq_some {h : Header} {n : Nat} {bs behind : Octets}
    (hread : header bs = some (h, behind)) (hn : h.length = some n) :
    ∃ lead tagOctets lengthOctets, bs = lead :: (tagOctets ++ (lengthOctets ++ behind)) ∧
      h.tagClass = tagClass lead ∧ h.constructed = decide (lead.toNat / 32 % 2 = 1) ∧
      (tagOctets = [] → lead.toNat % 32 ≠ 31 ∧ h.tag = lead.toNat % 32) ∧
      (Der.writeLength n).length ≤ lengthOctets.length ∧ n < 0x10000000000000000 := by
  cases bs with
  | nil => cases hread
  | cons lead bs =>
    obtain ⟨⟨tag, mid⟩, htag, hread⟩ := Option.bind_eq_some_iff.1 hread
    obtain ⟨⟨len, after⟩, hlength, hread⟩ := Option.bind_eq_some_iff.1 hread
    have hmid : ∃ tagOctets, bs = tagOctets ++ mid ∧
        (tagOctets = [] → lead.toNat % 32 ≠ 31 ∧ tag = lead.toNat % 32) := by
      simp only [tagNumber] at htag
      split at htag
      · obtain ⟨digits, hbs, hne⟩ := tagDigits_eq_some htag
        exact ⟨digits, hbs, fun h => absurd h hne⟩
      · next hlow =>
        cases htag
        exact ⟨[], rfl, fun _ => ⟨hlow, rfl⟩⟩
    obtain ⟨tagOctets, hbs, hlow⟩ := hmid
    dsimp only at hread
    split at hread
    · cases hread
    · cases hread
      cases hn
      obtain ⟨lengthOctets, hmid, hle, hlt⟩ := length_eq_some hlength
      refine ⟨lead, tagOctets, lengthOctets, ?_, rfl, rfl, hlow, hle, hlt⟩
      rw [hbs, hmid]

end Ber

theorem Der.read_eq_some {e : Element} {bs rest : Octets}
    (hread : Element.read bs = some (e, rest)) :
    ∃ lead tagOctets lengthOctets, e.header = lead :: (tagOctets ++ lengthOctets) ∧
      bs = e.raw ++ rest ∧
      e.tagClass = Ber.tagClass lead ∧ e.constructed = decide (lead.toNat / 32 % 2 = 1) ∧
      (tagOctets = [] → lead.toNat % 32 ≠ 31 ∧ e.tag = lead.toNat % 32) ∧
      (writeLength e.content.length).length ≤ lengthOctets.length ∧
      e.content.length < 0x10000000000000000 := by
  obtain ⟨⟨h, behind⟩, hheader, hbehind⟩ := Option.bind_eq_some_iff.1 hread
  obtain ⟨n, hn, hcontent⟩ := Option.bind_eq_some_iff.1 hbehind
  obtain ⟨⟨content, after⟩, hsplit, hresult⟩ := Option.bind_eq_some_iff.1 hcontent
  obtain ⟨lead, tagOctets, lengthOctets, hbs, hclass, hconstructed, hlow, hle, hlt⟩ :=
    Ber.header_eq_some hheader hn
  obtain ⟨hfront, hlength⟩ := Octets.eq_append_of_split? hsplit
  dsimp only at hfront hresult
  cases hresult
  have htake : bs.take (bs.length - behind.length) = lead :: (tagOctets ++ lengthOctets) := by
    have hsplit : bs = (lead :: (tagOctets ++ lengthOctets)) ++ behind := by simp [hbs]
    rw [hsplit, List.length_append, Nat.add_sub_cancel]
    exact List.take_left
  refine ⟨lead, tagOctets, lengthOctets, htake, ?_, hclass, hconstructed, hlow, ?_, ?_⟩
  · change bs = (bs.take (bs.length - behind.length) ++ content) ++ rest
    rw [htake, hbs, hfront]
    simp
  · simpa only [hlength] using hle
  · simpa only [hlength] using hlt

namespace Canonical

open Der (Element element)

def IsTaken (e : Element) : Prop :=
  ∃ (lead : UInt8) (content : Octets), lead.toNat % 32 ≠ 31 ∧ content.length < 0x10000000000000000 ∧
    e = element lead content ∧ isKnownTag e = true

variable {e : Element} {es : List Element}

theorem isShort_element (lead : UInt8) (content : Octets) :
    isShort (element lead content) = true := by
  simp [isShort, element]

theorem IsTaken.read (h : IsTaken e) : Reader.Takes Element.read e.raw (some e) := by
  obtain ⟨lead, content, hlead, hlen, rfl, -⟩ := h
  exact Der.takes_read hlead hlen

theorem IsTaken.readElement (h : IsTaken e) :
    Reader.Takes SignedData.readElement e.raw (some e) := by
  obtain ⟨lead, content, hlead, hlen, rfl, -⟩ := h
  exact Der.takes_readElement hlead hlen

theorem IsTaken.readAny (h : IsTaken e) : Reader.Takes readAny e.raw (some e) := by
  refine ⟨h.read.1, fun rest => ?_⟩
  obtain ⟨lead, content, -, -, he, hknown⟩ := id h
  have hshort : isShort e = true := he ▸ isShort_element lead content
  unfold Canonical.readAny
  simp [h.read.2 rest, hshort, hknown]

theorem of_readAny {bs rest : Octets} (h : Canonical.readAny bs = some (e, rest)) :
    IsTaken e ∧ bs = e.raw ++ rest := by
  obtain ⟨⟨e', rest'⟩, hread, h⟩ := Option.bind_eq_some_iff.1 h
  dsimp only at h
  split at h
  · next hform =>
    cases h
    obtain ⟨hshort, hknown⟩ := Bool.and_eq_true_iff.1 hform
    obtain ⟨lead, tagOctets, lengthOctets, hheader, hbs, hclass, hconstructed, hlow, hle, hlt⟩ :=
      Der.read_eq_some hread
    -- the octets of the length alone are as many as the shortest, so none are left for a long tag
    -- number
    have htail : tagOctets ++ lengthOctets = Der.writeLength e.content.length := by
      simpa [isShort, hheader] using hshort
    have hnil : tagOctets = [] := by
      have hlength := congrArg List.length htail
      rw [List.length_append] at hlength
      exact List.length_eq_zero_iff.1 (by omega)
    obtain ⟨hlead, htag⟩ := hlow hnil
    subst hnil
    refine ⟨⟨lead, e.content, hlead, hlt, ?_, hknown⟩, hbs⟩
    cases e
    simp_all [element]
  · cases h

/-- What a content is read as is what it is put together from. -/
theorem all_eq_some_iff {bs : Octets} :
    Canonical.all bs = some es ↔ (∀ e ∈ es, IsTaken e) ∧ bs = (es.map Element.raw).flatten :=
  Reader.all_eq_some_iff (fun _ => IsTaken.readAny) fun _ _ _ => of_readAny

theorem sequence?_eq_some_iff : sequence? e = some es ↔
    e.isUniversal 16 true = true ∧ (∀ x ∈ es, IsTaken x) ∧
      e.content = (es.map Element.raw).flatten := by
  unfold sequence?
  split <;> simp [*, all_eq_some_iff]

theorem set?_eq_some_iff : set? e = some es ↔
    e.isUniversal 17 true = true ∧ (∀ x ∈ es, IsTaken x) ∧
      e.content = (es.map Element.raw).flatten := by
  unfold set?
  split <;> simp [*, all_eq_some_iff]

section

variable (h : ∀ e ∈ es, IsTaken e)
include h

theorem elementAll_raw : Element.all (es.map Element.raw).flatten = some es :=
  Reader.all_map_raw fun e he => (h e he).read

theorem elements_raw : SignedData.elements (es.map Element.raw).flatten = some es :=
  Reader.all_map_raw fun e he => (h e he).readElement

end

/-- Other readers find the same parts. -/
theorem elementAll_of_all {bs : Octets} (h : Canonical.all bs = some es) :
    Element.all bs = some es := by
  obtain ⟨hes, rfl⟩ := all_eq_some_iff.1 h
  exact elementAll_raw hes

theorem element_sequence? (h : sequence? e = some es) : e.sequence? = some es := by
  obtain ⟨he, hes, hcontent⟩ := sequence?_eq_some_iff.1 h
  rw [Element.sequence?, if_pos he, hcontent, elementAll_raw hes]

theorem listed?_eq_some {tag : Nat} (he : e.isUniversal tag true = true) (hes : ∀ x ∈ es, IsTaken x)
    (hcontent : e.content = (es.map Element.raw).flatten) :
    Conformance.listed? tag e = some es := by
  have hconstructed : e.constructed = true := by
    simp only [Element.isUniversal, Bool.and_eq_true, beq_iff_eq] at he
    exact he.2
  rw [Conformance.listed?, hconstructed, if_pos he, hcontent, elementAll_raw hes]

theorem listed?_sequence (h : sequence? e = some es) : Conformance.listed? 16 e = some es := by
  obtain ⟨he, hes, hcontent⟩ := sequence?_eq_some_iff.1 h
  exact listed?_eq_some he hes hcontent

theorem listed?_set (h : set? e = some es) : Conformance.listed? 17 e = some es := by
  obtain ⟨he, hes, hcontent⟩ := set?_eq_some_iff.1 h
  exact listed?_eq_some he hes hcontent

theorem element_context? (h : Canonical.all e.content = some es) (n : Nat) :
    e.context? n = if isContext n true e then some es else none := by
  rw [Element.context?, elementAll_of_all h]
  simp [isContext]

theorem isTaken_element {lead : UInt8} {content : Octets} (hlead : lead.toNat % 32 ≠ 31)
    (hknown : isKnownTag (element lead []) = true)
    (hlen : (Der.write lead content).length < 0x10000000000000000) :
    IsTaken (element lead content) := by
  refine ⟨lead, content, hlead, ?_, rfl, hknown⟩
  simp only [Der.write, List.length_cons, List.length_append] at hlen
  omega

end Canonical

end AttestedKey
