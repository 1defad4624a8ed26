import AttestedKey.Proofs.ElementPrefix

/-! Where the public key of a certificate stands. The tolerant reading of a certificate goes on
behind each field where the element of that field ends (`Follows`), so with a certificate that
conforms it is at the same element as the strict reading all the way to the key, and takes it whole
(`Certificate.keyInfo_eq`), also when the certificate was written anew. -/

namespace AttestedKey

open Der (Element)

namespace Der

/-- The parts of a content, each of which is read wherever its octets stand. -/
theorem all_eq_some {bs : Octets} {es : List Element} (h : Element.all bs = some es) :
    (∀ e ∈ es, Reader.Takes Element.read e.raw (some e)) ∧ bs = (es.map Element.raw).flatten :=
  (Reader.all_eq_some_iff (fun _ => id) fun _ _ _ hread => ((takes_of_read hread).symm)).1 h

theorem sequence?_eq_some {e : Element} {es : List Element} (h : e.sequence? = some es) :
    (∀ x ∈ es, Reader.Takes Element.read x.raw (some x)) ∧
      e.content = (es.map Element.raw).flatten := by
  unfold Element.sequence? at h
  split at h
  · exact all_eq_some h
  · cases h

end Der

namespace CertificateFields

open Conformance

def Follows {α : Type} (reader : Reader α) : Prop :=
  ∀ bs e rest x rest', Element.read bs = some (e, rest) → reader bs = some (x, rest') → rest' = rest

/-- A reader that looks into one element. -/
theorem follows_of_read {α : Type} {reader : Reader α}
    (h : ∀ bs x rest, reader bs = some (x, rest) → ∃ e, Element.read bs = some (e, rest)) :
    Follows reader := by
  intro bs e rest x rest' hread hreader
  obtain ⟨e', hread'⟩ := h _ _ _ hreader
  cases hread.symm.trans hread'
  rfl

theorem read_of_numbered {tag : Nat} {bs rest : Octets} {e : Element}
    (h : Element.numbered tag bs = some (e, rest)) : Element.read bs = some (e, rest) := by
  obtain ⟨⟨e', rest'⟩, hread, h⟩ := Option.bind_eq_some_iff.1 h
  dsimp only at h
  split at h
  · cases h
    exact hread
  · cases h

theorem read_of_primitive {tag : Nat} {bs rest : Octets} {e : Element}
    (h : Element.primitive tag bs = some (e, rest)) : Element.read bs = some (e, rest) := by
  obtain ⟨⟨e', rest'⟩, hread, h⟩ := Option.bind_eq_some_iff.1 h
  dsimp only at h
  split at h
  · cases h
  · cases h
    exact read_of_numbered hread

theorem follows_algorithm : Follows AlgorithmIdentifier.read := by
  refine follows_of_read fun bs x rest h => ?_
  obtain ⟨⟨e, rest'⟩, hread, h⟩ := Option.bind_eq_some_iff.1 h
  obtain ⟨p, -, h⟩ := Option.bind_eq_some_iff.1 h
  cases h
  exact ⟨e, read_of_numbered hread⟩

theorem follows_bits : Follows BitString.read := by
  refine follows_of_read fun bs x rest h => ?_
  obtain ⟨⟨e, rest'⟩, hread, h⟩ := Option.bind_eq_some_iff.1 h
  obtain ⟨b, -, h⟩ := Option.bind_eq_some_iff.1 h
  cases h
  exact ⟨e, read_of_primitive hread⟩

theorem follows_name : Follows Name.read := by
  refine follows_of_read fun bs x rest h => ?_
  obtain ⟨⟨e, rest'⟩, hread, h⟩ := Option.bind_eq_some_iff.1 h
  cases h
  exact ⟨e, read_of_numbered hread⟩

theorem follows_validity : Follows Validity.read := by
  refine follows_of_read fun bs x rest h => ?_
  obtain ⟨⟨e, rest'⟩, hread, h⟩ := Option.bind_eq_some_iff.1 h
  obtain ⟨p, -, h⟩ := Option.bind_eq_some_iff.1 h
  obtain ⟨q, -, h⟩ := Option.bind_eq_some_iff.1 h
  cases h
  exact ⟨e, read_of_numbered hread⟩

/-- A serial number may be of indefinite length, but then no element stands there. -/
theorem follows_serial : Follows readSerial := by
  intro bs e rest x rest' hread hserial
  obtain ⟨h, behind, n, content, hheader, hn, hsplit, -⟩ := Der.read_eq_some_iff.1 hread
  unfold readSerial at hserial
  simp only [hheader, Option.bind_eq_bind, Option.bind_some] at hserial
  split at hserial
  · cases hserial
  · obtain ⟨⟨content', rest''⟩, hcontent, hserial⟩ := Option.bind_eq_some_iff.1 hserial
    have hcontent' : Ber.content Ber.maxDepth h behind = some (content, rest) := by
      unfold Ber.content
      simpa [hn, Ber.maxDepth] using hsplit
    cases hcontent'.symm.trans hcontent
    cases hserial
    rfl

section

variable {e : Element} (htakes : Reader.Takes Element.read e.raw (some e))
include htakes

theorem header_raw (rest : Octets) : ∃ h behind, Ber.header (e.raw ++ rest) = some (h, behind) ∧
    h.tagClass = e.tagClass ∧ h.tag = e.tag := by
  obtain ⟨h, behind, n, content, hheader, -, -, he⟩ := Der.read_eq_some_iff.1 (htakes.2 rest)
  exact ⟨h, behind, hheader, (congrArg Element.tagClass he).symm, (congrArg Element.tag he).symm⟩

variable {rest : Octets}

theorem raw_append_ne_nil : (e.raw ++ rest).isEmpty = false := by
  rw [List.isEmpty_eq_false_iff]
  exact List.append_ne_nil_of_left_ne_nil htakes.1 rest

theorem skipVersion_of_isVersion {bs : Octets} (he : isVersion e = true)
    (h : skipVersion (e.raw ++ rest) = some bs) : bs = rest := by
  obtain ⟨hd, behind, hheader, hclass, htag⟩ := header_raw htakes rest
  have hcontext : e.tagClass = .context ∧ e.tag = 0 := by
    unfold isVersion Element.context? at he
    by_cases hif : (e.tagClass == .context && e.tag == 0 && e.constructed) = true
    · rw [Bool.and_eq_true, Bool.and_eq_true, beq_iff_eq, beq_iff_eq] at hif
      exact hif.1
    · rw [if_neg hif] at he
      cases he
  unfold skipVersion at h
  simp only [raw_append_ne_nil htakes, Bool.false_eq_true, if_false, hheader, Option.bind_eq_bind,
    Option.bind_some, hclass, htag, hcontext, and_self, if_true, htakes.2 rest, Option.map_some]
    at h
  obtain ⟨p, -, h⟩ := Option.bind_eq_some_iff.1 h
  split at h
  · cases h
    rfl
  · cases h

theorem skipVersion_of_isInteger {bs : Octets} (he : isInteger e = true)
    (h : skipVersion (e.raw ++ rest) = some bs) : bs = e.raw ++ rest := by
  obtain ⟨hd, behind, hheader, hclass, -⟩ := header_raw htakes rest
  have huniversal : e.tagClass = .universal := by
    unfold isInteger Element.isUniversal at he
    simp only [Bool.and_eq_true, beq_iff_eq] at he
    exact he.1.1.1
  unfold skipVersion at h
  simp only [raw_append_ne_nil htakes, Bool.false_eq_true, if_false, hheader, Option.bind_eq_bind,
    Option.bind_some, hclass, huniversal, reduceCtorEq, false_and] at h
  exact (Option.some.inj h).symm

/-- Of a key that conforms nothing is left out. -/
theorem readKeyInfo_of_isKeyInfo {keyInfo behind : Octets} (he : isKeyInfo e = true)
    (h : readKeyInfo (e.raw ++ rest) = some (keyInfo, behind)) : keyInfo = e.raw := by
  obtain ⟨⟨e', rest'⟩, hread, h⟩ := Option.bind_eq_some_iff.1 h
  cases (htakes.2 rest).symm.trans (read_of_numbered hread)
  obtain ⟨⟨algorithm, inner⟩, halgorithm, h⟩ := Option.bind_eq_some_iff.1 h
  obtain ⟨⟨bits, unread⟩, hbits, h⟩ := Option.bind_eq_some_iff.1 h
  unfold isKeyInfo at he
  split at he
  · next a b hparts =>
    obtain ⟨hparts, hcontent⟩ := Der.sequence?_eq_some hparts
    rw [List.map_cons, List.map_cons, List.map_nil, List.flatten_cons, List.flatten_cons,
      List.flatten_nil] at hcontent
    have hfirst := (hparts a (by simp)).2 (b.raw ++ [])
    have hsecond := (hparts b (by simp)).2 []
    rw [← hcontent] at hfirst
    obtain rfl := follows_algorithm _ _ _ _ _ hfirst halgorithm
    obtain rfl := follows_bits _ _ _ _ _ hsecond hbits
    cases h
    rw [List.length_nil, Nat.sub_zero, List.take_length, Element.raw]
  · cases he

end

/-- The fields in front of the key, one after the other. -/
theorem keyInfo_eq_of_fields {serial algorithm issuer validity subject keyInfo : Element}
    {rest bs : Octets}
    (htakes : ∀ e ∈ [serial, algorithm, issuer, validity, subject, keyInfo],
      Reader.Takes Element.read e.raw (some e))
    (hkey : isKeyInfo keyInfo = true)
    (hbs : bs = serial.raw ++
      (algorithm.raw ++ (issuer.raw ++ (validity.raw ++ (subject.raw ++ (keyInfo.raw ++ rest))))))
    {number : Nat} {a : AlgorithmIdentifier} {i s : Name} {v : Validity}
    {k bs₁ bs₂ bs₃ bs₄ bs₅ bs₆ : Octets}
    (h₁ : readSerial bs = some (number, bs₁)) (h₂ : AlgorithmIdentifier.read bs₁ = some (a, bs₂))
    (h₃ : Name.read bs₂ = some (i, bs₃)) (h₄ : Validity.read bs₃ = some (v, bs₄))
    (h₅ : Name.read bs₄ = some (s, bs₅))
    (h₆ : readKeyInfo bs₅ = some (k, bs₆)) : k = keyInfo.raw := by
  simp only [List.forall_mem_cons, List.not_mem_nil, false_imp_iff, implies_true, and_true]
    at htakes
  obtain ⟨hserial, halgorithm, hissuer, hvalidity, hsubject, hkeyInfo⟩ := htakes
  subst hbs
  obtain rfl := follows_serial _ _ _ _ _ (hserial.2 _) h₁
  obtain rfl := follows_algorithm _ _ _ _ _ (halgorithm.2 _) h₂
  obtain rfl := follows_name _ _ _ _ _ (hissuer.2 _) h₃
  obtain rfl := follows_validity _ _ _ _ _ (hvalidity.2 _) h₄
  obtain rfl := follows_name _ _ _ _ _ (hsubject.2 _) h₅
  exact readKeyInfo_of_isKeyInfo hkeyInfo hkey h₆

theorem flatten_fields {es rest : List Element} {e₁ e₂ e₃ e₄ e₅ e₆ : Element}
    (h : es = e₁ :: e₂ :: e₃ :: e₄ :: e₅ :: e₆ :: rest) :
    (es.map Element.raw).flatten =
      e₁.raw ++
        (e₂.raw ++
        (e₃.raw ++ (e₄.raw ++ (e₅.raw ++ (e₆.raw ++ (rest.map Element.raw).flatten))))) := by
  rw [h]
  rfl

/-- The key that the strict reading finds in a signed part is the one that the fields have. -/
theorem keyInfo_eq_of_signed {content : Octets} {fields : CertificateFields}
    {signed keyInfo : Element} {more : Octets}
    (hsigned : Reader.Takes Element.read signed.raw (some signed))
    (hcontent : content = signed.raw ++ more) (hkey : keyInfo? signed = some keyInfo)
    (h : ofContent? content = some fields) : fields.keyInfo = keyInfo.raw := by
  unfold ofContent? at h
  obtain ⟨⟨tbs, behind⟩, htbs, h⟩ := Option.bind_eq_some_iff.1 h
  obtain ⟨bs, hversion, h⟩ := Option.bind_eq_some_iff.1 h
  obtain ⟨⟨number, bs₁⟩, h₁, h⟩ := Option.bind_eq_some_iff.1 h
  obtain ⟨⟨a, bs₂⟩, h₂, h⟩ := Option.bind_eq_some_iff.1 h
  obtain ⟨⟨i, bs₃⟩, h₃, h⟩ := Option.bind_eq_some_iff.1 h
  obtain ⟨⟨v, bs₄⟩, h₄, h⟩ := Option.bind_eq_some_iff.1 h
  obtain ⟨⟨s, bs₅⟩, h₅, h⟩ := Option.bind_eq_some_iff.1 h
  obtain ⟨⟨k, bs₆⟩, h₆, h⟩ := Option.bind_eq_some_iff.1 h
  obtain ⟨bs₇, -, h⟩ := Option.bind_eq_some_iff.1 h
  obtain ⟨bs₈, -, h⟩ := Option.bind_eq_some_iff.1 h
  obtain ⟨extensions, -, h⟩ := Option.bind_eq_some_iff.1 h
  obtain ⟨⟨algorithm, behind'⟩, -, h⟩ := Option.bind_eq_some_iff.1 h
  obtain ⟨⟨signature, behind''⟩, -, h⟩ := Option.bind_eq_some_iff.1 h
  cases h
  rw [hcontent] at htbs
  cases (hsigned.2 more).symm.trans (read_of_numbered htbs)
  unfold keyInfo? at hkey
  split at hkey
  · next serial algorithm issuer validity subject key rest hparts =>
    obtain ⟨parts, hsequence, hdropped⟩ := Option.map_eq_some_iff.1 hparts
    obtain ⟨htakes, hbs⟩ := Der.sequence?_eq_some hsequence
    split at hkey
    · next hchecks =>
      cases hkey
      simp only [Bool.and_eq_true] at hchecks
      have hinteger : isInteger serial = true := hchecks.1.1.1.1.1.1
      cases parts with
      | nil => cases hdropped
      | cons first parts =>
        rw [dropOptional] at hdropped
        rw [hbs, List.map_cons, List.flatten_cons] at hversion
        have hfirst := htakes first List.mem_cons_self
        split at hdropped
        · next his =>
          -- the version stands first
          have hfields : ∀ e ∈ [serial, algorithm, issuer, validity, subject, keyInfo],
              Reader.Takes Element.read e.raw (some e) :=
            fun e he => htakes e (List.mem_cons_of_mem _ (hdropped ▸ List.mem_append_left rest he))
          obtain rfl := skipVersion_of_isVersion hfirst his hversion
          exact keyInfo_eq_of_fields hfields hchecks.1.2 (flatten_fields hdropped) h₁ h₂ h₃ h₄ h₅ h₆
        · have hfields : ∀ e ∈ [serial, algorithm, issuer, validity, subject, keyInfo],
              Reader.Takes Element.read e.raw (some e) :=
            fun e he => htakes e (hdropped ▸ List.mem_append_left rest he)
          have hserial : first = serial := (List.cons.inj hdropped).1
          obtain rfl := skipVersion_of_isInteger hfirst (hserial ▸ hinteger) hversion
          rw [← List.flatten_cons, ← List.map_cons] at h₁
          exact keyInfo_eq_of_fields hfields hchecks.1.2 (flatten_fields hdropped) h₁ h₂ h₃ h₄ h₅ h₆
    · cases hkey
  · cases hkey

end CertificateFields

namespace Conformance.Parts

/-- What stands in front of a certificate that conforms: a signed part and a key inside it. -/
theorem of_ofFront? {bs : Octets} {p : Parts} (h : ofFront? bs = some p) :
    ∃ e rest more, Element.read bs = some (e, rest) ∧ e.content = p.signed.raw ++ more ∧
      Reader.Takes Element.read p.signed.raw (some p.signed) ∧
      keyInfo? p.signed = some p.keyInfo := by
  obtain ⟨⟨e, rest⟩, hread, hp⟩ := Option.bind_eq_some_iff.1 h
  unfold ofElement? at hp
  obtain ⟨es, hsequence, hp⟩ := Option.bind_eq_some_iff.1 hp
  obtain ⟨htakes, hcontent⟩ := Der.sequence?_eq_some hsequence
  split at hp
  · obtain ⟨keyInfo, hkeyInfo, hp⟩ := Option.bind_eq_some_iff.1 hp
    split at hp
    · cases hp
      exact ⟨e, rest, _, hread, hcontent, htakes _ List.mem_cons_self, hkeyInfo⟩
    · cases hp
  · cases hp

end Conformance.Parts

namespace Certificate

variable {c : Certificate} {p : Conformance.Parts} (hc : ofDer c.der = .ok c)
include hc

theorem keyInfo_eq (hp : Conformance.Parts.ofFront? c.der = some p) :
    c.keyInfo = p.keyInfo.raw := by
  obtain ⟨e, rest, more, hread, hcontent, htakes, hkey⟩ := Conformance.Parts.of_ofFront? hp
  obtain ⟨e', hread', -, hfields, -⟩ :=
    CertificateFields.read_eq_some_iff.1 (ofDer_eq_ok_iff.1 hc).1
  cases hread.symm.trans hread'
  exact CertificateFields.keyInfo_eq_of_signed htakes hcontent hkey hfields

/-- Writing a certificate with the shortest lengths keeps its key. -/
theorem keyInfo_eq_of_encoding {bs : Octets} (hp : Conformance.Parts.ofFront? bs = some p)
    (hder : c.der = p.encoding) (hlen : c.der.length < 0x10000000000000000) :
    c.keyInfo = p.keyInfo.raw := by
  obtain ⟨-, -, -, -, -, htakes, hkey⟩ := Conformance.Parts.of_ofFront? hp
  obtain ⟨e, hread, -, hfields, -⟩ := CertificateFields.read_eq_some_iff.1 (ofDer_eq_ok_iff.1 hc).1
  rw [hder] at hlen hread
  have hwritten :=
    (Der.takes_read (show (0x30 : UInt8).toNat % 32 ≠ 31 by decide) (Ber.length_content_lt hlen)).2
    []
  rw [List.append_nil] at hwritten
  cases hread.symm.trans hwritten
  exact CertificateFields.keyInfo_eq_of_signed htakes rfl hkey hfields

end Certificate

end AttestedKey
