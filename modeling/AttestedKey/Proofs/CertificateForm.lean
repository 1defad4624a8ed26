import AttestedKey.Proofs.CanonicalForm

/-! What the signed part of a certificate is given back as when it is encoded anew. It is taken
apart into a layout, and what is given back for it is the layout of the forms of its parts. So it
has a form itself: it stays as it is when it is encoded anew once more, and conforms if it did
before (`hasForms_signed`). -/

namespace AttestedKey.Canonical

open Der (Element element)

/-- A part that may be absent is absent only if what follows could not be taken for it. -/
structure IsFirst (is : Element → Bool) (part : Option Element) (rest : List Element) : Prop where
  present : ∀ e ∈ part, is e = true
  absent : part = none → ∀ e ∈ rest.head?, is e = false

def given (part? : Element → Option Octets) (part : Option Element) : Option Octets :=
  part.elim (some []) part?

theorem optionalPart_eq_some_iff {is : Element → Bool} {part? : Element → Option Octets}
    {es rest : List Element} {x : Octets} : optionalPart is part? es = some (x, rest) ↔
      ∃ part, es = part.toList ++ rest ∧ IsFirst is part rest ∧ given part? part = some x := by
  constructor
  · intro h
    cases es with
    | nil =>
      cases h
      exact ⟨none, rfl, ⟨by simp, by simp⟩, rfl⟩
    | cons e es =>
      rw [optionalPart] at h
      split at h
      · next he =>
        obtain ⟨y, hy, h⟩ := Option.map_eq_some_iff.1 h
        cases h
        exact ⟨some e, rfl, ⟨by simpa using he, by simp⟩, hy⟩
      · next he =>
        cases h
        exact ⟨none, rfl, ⟨by simp, by simpa using he⟩, rfl⟩
  · rintro ⟨part, rfl, hfirst, hx⟩
    cases part with
    | some e =>
      change optionalPart is part? (e :: rest) = _
      rw [optionalPart, if_pos (hfirst.present e rfl)]
      exact Option.map_eq_some_iff.2 ⟨x, hx, rfl⟩
    | none =>
      cases hx
      cases rest with
      | nil => rfl
      | cons e rest =>
        change optionalPart is part? (e :: rest) = _
        rw [optionalPart, hfirst.absent rfl e rfl]
        rfl

theorem dropOptional_append {is : Element → Bool} {part : Option Element} {rest : List Element}
    (h : IsFirst is part rest) : Conformance.dropOptional is (part.toList ++ rest) = rest := by
  cases part with
  | some e =>
    change Conformance.dropOptional is (e :: rest) = _
    rw [Conformance.dropOptional, if_pos (h.present e rfl)]
  | none =>
    cases rest with
    | nil => rfl
    | cons e rest =>
      change Conformance.dropOptional is (e :: rest) = _
      rw [Conformance.dropOptional, h.absent rfl e rfl]
      rfl

structure Layout where
  version : Option Element
  serial : Element
  algorithm : Element
  issuer : Element
  validity : Element
  subject : Element
  keyInfo : Element
  issuerId : Option Element
  subjectId : Option Element
  extensions : Option Element

namespace Layout

def tail (l : Layout) : List Element :=
  l.issuerId.toList ++ (l.subjectId.toList ++ l.extensions.toList)

def body (l : Layout) : List Element :=
  l.serial :: l.algorithm :: l.issuer :: l.validity :: l.subject :: l.keyInfo :: l.tail

def parts (l : Layout) : List Element := l.version.toList ++ l.body

theorem forall_mem_parts {l : Layout} {P : Element → Prop} :
    (∀ e ∈ l.parts, P e) ↔
    (∀ e ∈ l.version, P e) ∧ P l.serial ∧ P l.algorithm ∧ P l.issuer ∧ P l.validity ∧
      P l.subject ∧ P l.keyInfo ∧ (∀ e ∈ l.issuerId, P e) ∧ (∀ e ∈ l.subjectId, P e) ∧
      ∀ e ∈ l.extensions, P e := by
  simp [parts, body, tail, or_imp, forall_and]

/-- Every part is what its place asks for; names and extensions are looked at for themselves. -/
structure IsSound (l : Layout) : Prop where
  version : ∀ e ∈ l.version, isContext 0 true e = true ∧ Conformance.isVersion e = true
  serial : isSerial l.serial = true
  algorithm : isAlgorithm l.algorithm = true
  validity : isValidity l.validity = true
  keyInfo : isKeyInfo l.keyInfo = true
  issuerId : ∀ e ∈ l.issuerId, isContext 1 false e = true ∧ isBitsContent e.content = true
  subjectId : ∀ e ∈ l.subjectId, isContext 2 false e = true ∧ isBitsContent e.content = true
  extensions : ∀ e ∈ l.extensions, isContext 3 true e = true

theorem isContext_eq_false {m n : Nat} {b c : Bool} {e : Element} (h : isContext m b e = true)
    (hne : m ≠ n) : isContext n c e = false := by
  simp only [isContext, Bool.and_eq_true, beq_iff_eq] at h
  simp [isContext, h.1.2, hne]

theorem isUniqueId_eq (n : Nat) (e : Element) :
    Conformance.isUniqueId n e = (isContext n false e && Conformance.isBitsContent e.content) := by
  unfold Conformance.isUniqueId isContext
  cases e.constructed <;> rfl

theorem isBitsContent_conforms {content : Octets} (h : isBitsContent content = true) :
    Conformance.isBitsContent content = true := by
  unfold isBitsContent at h
  split at h
  · cases h
  · next unused =>
    simp only [beq_iff_eq] at h
    subst h
    rfl
  · next unused rest _ => simpa [Conformance.isBitsContent] using h

theorem isFirst_of_forall {is : Element → Bool} {part : Option Element} {rest : List Element}
    (hpart : ∀ e ∈ part, is e = true) (hrest : ∀ e ∈ rest, is e = false) : IsFirst is part rest :=
  ⟨hpart, fun _ e he => hrest e (List.mem_of_mem_head? he)⟩

/-- Both readers of a certificate look for the identifiers in the same places. -/
theorem isFirst_uniqueId {n : Nat} {part : Option Element} {rest : List Element}
    (hpart : ∀ e ∈ part, isContext n false e = true ∧ isBitsContent e.content = true)
    (hrest : ∀ e ∈ rest, isContext n false e = false) :
    IsFirst (isContext n false) part rest ∧ IsFirst (Conformance.isUniqueId n) part rest := by
  refine ⟨isFirst_of_forall (fun e he => (hpart e he).1) hrest,
    isFirst_of_forall (fun e he => ?_) fun e he => ?_⟩
  · rw [isUniqueId_eq, (hpart e he).1, isBitsContent_conforms (hpart e he).2]
    rfl
  · rw [isUniqueId_eq, hrest e he, Bool.false_and]

namespace IsSound

variable {l : Layout} (h : l.IsSound)
include h

theorem isFirst_version :
    IsFirst (isContext 0 true) l.version l.body ∧
      IsFirst Conformance.isVersion l.version l.body := by
  have hserial : l.serial.tagClass = .universal := by
    have hs := h.serial
    simp only [isSerial, Element.isUniversal, Bool.and_eq_true, beq_iff_eq] at hs
    exact hs.1.1.1.1
  refine ⟨⟨fun e he => (h.version e he).1, fun _ e he => ?_⟩,
    ⟨fun e he => (h.version e he).2, fun _ e he => ?_⟩⟩
  · cases he
    simp [isContext, hserial]
  · cases he
    simp [Conformance.isVersion, Element.context?, hserial]

theorem isFirst_issuerId :
    IsFirst (isContext 1 false) l.issuerId (l.subjectId.toList ++ l.extensions.toList) ∧
      IsFirst (Conformance.isUniqueId 1) l.issuerId (l.subjectId.toList ++
        l.extensions.toList) := by
  refine isFirst_uniqueId h.issuerId fun e he => ?_
  rcases List.mem_append.1 he with he | he
  · exact isContext_eq_false (h.subjectId e (Option.mem_toList.1 he)).1 (by decide)
  · exact isContext_eq_false (h.extensions e (Option.mem_toList.1 he)) (by decide)

theorem isFirst_subjectId :
    IsFirst (isContext 2 false) l.subjectId l.extensions.toList ∧
      IsFirst (Conformance.isUniqueId 2) l.subjectId l.extensions.toList :=
  isFirst_uniqueId h.subjectId fun e he =>
    isContext_eq_false (h.extensions e (Option.mem_toList.1 he)) (by decide)

theorem isFirst_extensions : IsFirst (isContext 3 true) l.extensions [] :=
  isFirst_of_forall h.extensions (by simp)

/-- Which signed parts conform, part by part. -/
theorem isSome_keyInfo?_iff {e : Element} (he : e.sequence? = some l.parts) :
    (Conformance.keyInfo? e).isSome = true ↔
      (Conformance.isInteger l.serial = true ∧ Conformance.isAlgorithm l.algorithm = true ∧
        Conformance.isValidity l.validity = true ∧ Conformance.isKeyInfo l.keyInfo = true) ∧
      Conformance.isName l.issuer = true ∧ Conformance.isName l.subject = true ∧
        ∀ x ∈ l.extensions, Conformance.isExtensions x = true := by
  unfold Conformance.keyInfo?
  rw [he, Option.map_some, parts, dropOptional_append h.isFirst_version.2]
  simp only [body, tail, dropOptional_append h.isFirst_issuerId.2,
    dropOptional_append h.isFirst_subjectId.2]
  have hextensions :
    (Conformance.dropOptional Conformance.isExtensions l.extensions.toList).isEmpty = true ↔
      ∀ x ∈ l.extensions, Conformance.isExtensions x = true := by
    cases l.extensions with
    | none => simp [Conformance.dropOptional]
    | some x => by_cases hx : Conformance.isExtensions x =
        true <;> simp [Conformance.dropOptional, hx]
  rw [← hextensions]
  split
  · next hall =>
    simp only [Bool.and_eq_true] at hall
    simp [hall]
  · next hall =>
    simp only [Bool.and_eq_true] at hall
    simp only [Option.isSome_none, Bool.false_eq_true, false_iff]
    tauto

end IsSound

end Layout

/-- A version is one of three numbers, the first of which is left out. -/
theorem of_version? {e : Element} {x : Octets} (h : version? e = some x) :
    ∃ number b, Canonical.all e.content = some [number] ∧ number.isUniversal 2 false = true ∧
      number.content = [b] ∧
      (x = [] ∨ x = e.raw) := by
  obtain ⟨es, hes, h⟩ := Option.bind_eq_some_iff.1 h
  split at h
  · next number =>
    split at h
    · next hnumber =>
      split at h
      · next hb => exact ⟨number, _, hes, hnumber, hb, .inl (Option.some.inj h).symm⟩
      · next hb => exact ⟨number, _, hes, hnumber, hb, .inr (Option.some.inj h).symm⟩
      · next hb => exact ⟨number, _, hes, hnumber, hb, .inr (Option.some.inj h).symm⟩
      · cases h
    · cases h
  · cases h

theorem given_version?_eq_some {part : Option Element} {x : Octets}
    (hpart : ∀ e ∈ part, isContext 0 true e = true) (h : given version? part = some x) :
    (∀ e ∈ part, Conformance.isVersion e = true) ∧
    (x = [] ∨ x = (part.toList.map Element.raw).flatten) := by
  cases part with
  | none => exact ⟨by simp, .inl (Option.some.inj h).symm⟩
  | some e =>
    obtain ⟨number, b, hall, hnumber, hb, hx⟩ := of_version? h
    refine ⟨?_, by simpa using hx⟩
    rintro e' ⟨⟩
    rw [Conformance.isVersion, element_context? hall, hpart e rfl]
    simp [Conformance.isInteger, hnumber, hb, Der.isIntegerContent]

theorem given_uniqueId?_eq_some {part : Option Element} {x : Octets}
    (h : given uniqueId? part = some x) :
    (∀ e ∈ part, isBitsContent e.content = true) ∧ x = (part.toList.map Element.raw).flatten := by
  cases part with
  | none => exact ⟨by simp, (Option.some.inj h).symm⟩
  | some e =>
    change uniqueId? e = some x at h
    unfold uniqueId? at h
    split at h
    · next he => exact ⟨by simpa using he, by simpa using (Option.some.inj h).symm⟩
    · cases h

namespace Layout

/-- What is given back for the parts that do not just stay as they are. -/
structure Given where
  version : Octets
  issuer : Octets
  subject : Octets
  issuerId : Octets
  subjectId : Octets
  extensions : Octets

structure IsGiven (l : Layout) (g : Given) : Prop where
  version : given version? l.version = some g.version
  issuer : name? l.issuer = some g.issuer
  subject : name? l.subject = some g.subject
  issuerId : given uniqueId? l.issuerId = some g.issuerId
  subjectId : given uniqueId? l.subjectId = some g.subjectId
  extensions : given extensions? l.extensions = some g.extensions

def write (l : Layout) (g : Given) : Octets :=
  Der.writeSequence [g.version, l.serial.raw, l.algorithm.raw, g.issuer, l.validity.raw, g.subject,
    l.keyInfo.raw, g.issuerId, g.subjectId, g.extensions]

def own (l : Layout) : Given where
  version := (l.version.toList.map Element.raw).flatten
  issuer := l.issuer.raw
  subject := l.subject.raw
  issuerId := (l.issuerId.toList.map Element.raw).flatten
  subjectId := (l.subjectId.toList.map Element.raw).flatten
  extensions := (l.extensions.toList.map Element.raw).flatten

theorem write_own (l : Layout) :
    l.write l.own = Der.write 0x30 (l.parts.map Element.raw).flatten := by
  simp [write, own, Der.writeSequence, parts, body, tail]

end Layout

/-- A signed part that is encoded anew has a layout. -/
theorem exists_layout {e : Element} {x : Octets} (h : signed? e = some x) :
    ∃ (l : Layout) (g : Layout.Given), sequence? e = some l.parts ∧ l.IsSound ∧ l.IsGiven g ∧
      l.write g = x := by
  obtain ⟨es, hes, h⟩ := Option.bind_eq_some_iff.1 h
  obtain ⟨⟨version, behindVersion⟩, hversion, h⟩ := Option.bind_eq_some_iff.1 h
  dsimp only at h
  split at h
  · next serial algorithm issuer validity subject keyInfo behind =>
    obtain ⟨issuerForm, hissuer, h⟩ := Option.bind_eq_some_iff.1 h
    obtain ⟨subjectForm, hsubject, h⟩ := Option.bind_eq_some_iff.1 h
    obtain ⟨⟨issuerIdForm, behindIssuerId⟩, hissuerId, h⟩ := Option.bind_eq_some_iff.1 h
    obtain ⟨⟨subjectIdForm, behindSubjectId⟩, hsubjectId, h⟩ := Option.bind_eq_some_iff.1 h
    obtain ⟨⟨extensionsForm, rest⟩, hextensions, h⟩ := Option.bind_eq_some_iff.1 h
    dsimp only at h
    split at h
    · next hchecks =>
      have hresult := Option.some.inj h
      simp only [Bool.and_eq_true, List.isEmpty_iff] at hchecks
      obtain ⟨⟨⟨⟨hserial, halgorithm⟩, hvalidity⟩, hkeyInfo⟩, rfl⟩ := hchecks
      obtain ⟨versionPart, rfl, hv, hv'⟩ := optionalPart_eq_some_iff.1 hversion
      obtain ⟨issuerId, rfl, hi, hi'⟩ := optionalPart_eq_some_iff.1 hissuerId
      obtain ⟨subjectId, rfl, hs, hs'⟩ := optionalPart_eq_some_iff.1 hsubjectId
      obtain ⟨extensions, rfl, hx, hx'⟩ := optionalPart_eq_some_iff.1 hextensions
      have hversions := (given_version?_eq_some hv.present hv').1
      have hissuerIds := (given_uniqueId?_eq_some hi').1
      have hsubjectIds := (given_uniqueId?_eq_some hs').1
      refine ⟨⟨versionPart, serial, algorithm, issuer, validity, subject, keyInfo, issuerId,
        subjectId, extensions⟩,
        ⟨version, issuerForm, subjectForm, issuerIdForm, subjectIdForm, extensionsForm⟩, ?_,
        ⟨fun e he => ⟨hv.present e he, hversions e he⟩, hserial, halgorithm, hvalidity, hkeyInfo,
          fun e he => ⟨hi.present e he, hissuerIds e he⟩,
          fun e he => ⟨hs.present e he, hsubjectIds e he⟩, hx.present⟩,
        ⟨hv', hissuer, hsubject, hi', hs', hx'⟩, hresult⟩
      rw [hes, Layout.parts, Layout.body, Layout.tail, List.append_nil]
    · cases h
  · cases h

theorem signed?_eq_write {e : Element} {l : Layout} {g : Layout.Given}
    (hes : sequence? e = some l.parts) (hl : l.IsSound) (hg : l.IsGiven g) :
    signed? e = some (l.write g) := by
  have hversion := optionalPart_eq_some_iff.2 ⟨l.version, rfl, hl.isFirst_version.1, hg.version⟩
  have hissuerId := optionalPart_eq_some_iff.2 ⟨l.issuerId, rfl, hl.isFirst_issuerId.1, hg.issuerId⟩
  have hsubjectId :=
    optionalPart_eq_some_iff.2 ⟨l.subjectId, rfl, hl.isFirst_subjectId.1, hg.subjectId⟩
  have hextensions :=
    optionalPart_eq_some_iff.2 ⟨l.extensions, rfl, hl.isFirst_extensions, hg.extensions⟩
  rw [List.append_nil] at hextensions
  unfold signed?
  rw [hes]
  simp only [Option.bind_eq_bind, Option.bind_some, Layout.parts, hversion]
  simp only [Layout.body, Layout.tail, Option.bind_some, hg.issuer, hg.subject, hissuerId,
    hsubjectId, hextensions, hl.serial, hl.algorithm, hl.validity, hl.keyInfo]
  rfl

theorem exists_form_version {part : Option Element} {x : Octets}
    (hpart : ∀ e ∈ part, isContext 0 true e = true) (h : given version? part = some x) :
    ∃ form : Option Element, (form.toList.map Element.raw).flatten = x ∧ (∀ e ∈ form, e ∈ part) ∧
      given version? form = some x := by
  rcases (given_version?_eq_some hpart h).2 with rfl | rfl
  · exact ⟨none, rfl, by simp, rfl⟩
  · exact ⟨part, rfl, fun e he => he, h⟩

theorem exists_form_optional_extensions {part : Option Element} {x : Octets}
    (h : given extensions? part = some x) (hlen : x.length < 0x10000000000000000) :
    ∃ form : Option Element, (form.toList.map Element.raw).flatten = x ∧
      (∀ e ∈ form, IsTaken e ∧ isContext 3 true e = true) ∧ given extensions? form = some x ∧
      ((∀ e ∈ part, Conformance.isExtensions e = true) → ∀ e ∈ form,
        Conformance.isExtensions e = true) := by
  cases part with
  | none =>
    cases h
    exact ⟨none, rfl, by simp, rfl, by simp⟩
  | some e =>
    obtain ⟨form, rfl, hcontext, hform⟩ := exists_form_extensions h hlen
    refine ⟨some form, by simp, ?_, hform.fixed, ?_⟩
    · rintro e' ⟨⟩
      exact ⟨hform.taken, hcontext⟩
    · rintro he e' ⟨⟩
      exact hform.conforms (he e rfl)

theorem hasForms_signed : HasForms signed? fun e => (Conformance.keyInfo? e).isSome := by
  intro e x he hx hlen
  obtain ⟨l, ⟨version, issuer, subject, issuerId, subjectId, extensions⟩, hes, hl, hg, rfl⟩ :=
    exists_layout hx
  obtain ⟨hversion, hissuer, hsubject, hissuerId, hsubjectId, hextensions⟩ := id hg
  dsimp only at hversion hissuer hsubject hissuerId hsubjectId hextensions
  obtain ⟨htakenVersion, hserial, halgorithm, htakenIssuer, hvalidity, htakenSubject, hkeyInfo,
    htakenIssuerId, htakenSubjectId, -⟩ :=
    Layout.forall_mem_parts.1 (sequence?_eq_some_iff.1 hes).2.1
  have hpart : ∀ part ∈ [version, l.serial.raw, l.algorithm.raw, issuer, l.validity.raw, subject,
    l.keyInfo.raw,
      issuerId, subjectId, extensions], part.length < 0x10000000000000000 :=
      fun _ => Ber.length_part_lt hlen
  obtain ⟨versionForm, rfl, hversionMem, hversionForm⟩ :=
    exists_form_version (fun e he => (hl.version e he).1) hversion
  obtain ⟨issuerForm, rfl, hissuerForm⟩ :=
    hasForms_name _ _ htakenIssuer hissuer (hpart _ (by simp))
  obtain ⟨subjectForm, rfl, hsubjectForm⟩ :=
    hasForms_name _ _ htakenSubject hsubject (hpart _ (by simp))
  obtain ⟨-, rfl⟩ := given_uniqueId?_eq_some hissuerId
  obtain ⟨-, rfl⟩ := given_uniqueId?_eq_some hsubjectId
  obtain ⟨extensionsForm, rfl, hextensionsForm, hfixed, hconforms⟩ :=
    exists_form_optional_extensions hextensions (hpart _ (by simp))
  let l' : Layout := { l with
    version := versionForm, issuer := issuerForm, subject := subjectForm,
    extensions := extensionsForm }
  have hl' : l'.IsSound := { hl with
    version := fun e he => hl.version e (hversionMem e he)
    extensions := fun e he => (hextensionsForm e he).2 }
  have hg' : l'.IsGiven l'.own :=
    ⟨hversionForm, hissuerForm.fixed, hsubjectForm.fixed, hissuerId, hsubjectId, hfixed⟩
  have htaken' : ∀ e ∈ l'.parts, IsTaken e :=
    Layout.forall_mem_parts.2 ⟨fun e he => htakenVersion e (hversionMem e he), hserial, halgorithm,
      hissuerForm.taken, hvalidity, hsubjectForm.taken, hkeyInfo, htakenIssuerId, htakenSubjectId,
      fun e he => (hextensionsForm e he).1⟩
  have hes' := sequence?_element htaken'
  change (l'.write l'.own).length < _ at hlen
  rw [l'.write_own] at hlen
  refine ⟨element 0x30 (l'.parts.map Element.raw).flatten, l'.write_own.symm,
    isTaken_element (by decide) rfl hlen, ?_,
    fun h => ?_⟩
  · rw [signed?_eq_write hes' hl' hg', l'.write_own]
    rfl
  · rw [hl.isSome_keyInfo?_iff (element_sequence? hes)] at h
    rw [hl'.isSome_keyInfo?_iff (element_sequence? hes')]
    exact ⟨h.1, hissuerForm.conforms h.2.1, hsubjectForm.conforms h.2.2.1, hconforms h.2.2.2⟩

end AttestedKey.Canonical
