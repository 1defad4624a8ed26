import AttestedKey.Chain.Basic
import AttestedKey.Proofs.ElementPrefix
import AttestedKey.Proofs.RewrittenCertificate
import AttestedKey.Proofs.SuppliedOrder

/-! Chains that are exported and read again. The envelope is read as the certificates that were put
into it, written once more, and those were the certificates of the chain encoded anew, in order. So
what was exported comes back, up to its order, exactly if neither changes a certificate of it
(`IsExport`). One that is changed loses its signature (`exported_unsigned`). -/

namespace AttestedKey

open Der (Element element)
open Canonical (IsTaken isTaken_element)

namespace SignedData

def signedParts (members : List Octets) : List Element :=
  [element 0x02 (Der.naturalContent 1), element 0x31 [], element 0x30 (Der.writeOid dataOid),
    element 0xA0 members.flatten, element 0x31 []]

def signedData (members : List Octets) : Element :=
  element 0x30 ((signedParts members).map Element.raw).flatten

def outerParts (members : List Octets) : List Element :=
  [element 0x06 signedDataOid, element 0xA0 (signedData members).raw]

def envelope (members : List Octets) : Element :=
  element 0x30 ((outerParts members).map Element.raw).flatten

theorem write?_eq_some_iff {certificates : List Octets} {bs : Octets} :
    write? certificates = some bs ↔
      ∃ members, Canonical.sorted? certificates = some members ∧ (envelope members).raw = bs := by
  have hraw : ∀ members : List Octets, (envelope members).raw =
      Der.writeSequence [Der.writeOid signedDataOid,
        Der.write 0xA0 (Der.writeSequence [Der.writeNatural 1, Der.write 0x31 [],
          Der.writeSequence [Der.writeOid dataOid], Der.write 0xA0 members.flatten,
        Der.write 0x31 []])] := by
    intro members
    simp [envelope, outerParts, signedData, signedParts, Der.writeSequence, Der.writeNatural,
      Der.writeOid]
  unfold write?
  simp only [Option.bind_eq_bind, Option.bind_eq_some_iff, Option.pure_def, Option.some_inj, hraw]

section

variable {members : List Octets} (hlen : (envelope members).raw.length < 0x10000000000000000)
include hlen

theorem length_signedData_lt : (signedData members).raw.length < 0x10000000000000000 := by
  have hpart : (Der.write 0xA0 (signedData members).raw).length < 0x10000000000000000 :=
    Ber.length_part_lt hlen (by simp [outerParts])
  exact Ber.length_content_lt hpart

theorem length_member_lt {x : Octets} (hx : x ∈ members) : x.length < 0x10000000000000000 := by
  have hpart : (Der.write 0xA0 members.flatten).length < 0x10000000000000000 :=
    Ber.length_part_lt (length_signedData_lt hlen) (by simp [signedParts])
  exact Nat.lt_of_le_of_lt (List.sublist_flatten_of_mem hx).length_le (Ber.length_content_lt hpart)

theorem isTaken_outerParts : ∀ e ∈ outerParts members, IsTaken e := by
  have hpart : ∀ e ∈ outerParts members, e.raw.length < 0x10000000000000000 :=
    fun e he => Ber.length_part_lt hlen (List.mem_map_of_mem he)
  simp only [outerParts, List.forall_mem_cons] at hpart ⊢
  exact ⟨isTaken_element (by decide) rfl hpart.1,
    isTaken_element (by decide) rfl hpart.2.1, by simp⟩

theorem isTaken_signedParts : ∀ e ∈ signedParts members, IsTaken e := by
  have hpart : ∀ e ∈ signedParts members, e.raw.length < 0x10000000000000000 :=
    fun e he => Ber.length_part_lt (length_signedData_lt hlen) (List.mem_map_of_mem he)
  simp only [signedParts, List.forall_mem_cons] at hpart ⊢
  obtain ⟨hversion, hdigests, hinner, hcertificates, hsigners, -⟩ := hpart
  exact ⟨isTaken_element (by decide) rfl hversion, isTaken_element (by decide) rfl hdigests,
    isTaken_element (by decide) rfl hinner, isTaken_element (by decide) rfl hcertificates,
    isTaken_element (by decide) rfl hsigners, by simp⟩

end

/-- Certificates are read out of an envelope one by one, and written again. -/
theorem mapM_ofElement? {forms : List Element} {written : List Octets}
    (htaken : ∀ f ∈ forms, IsTaken f)
    (hwritten : (forms.map Element.raw).mapM Conformance.rewritten? = some written) :
    ∃ ps, forms.mapM Conformance.Parts.ofElement? = some ps ∧
      ps.map Conformance.Parts.encoding = written := by
  induction forms generalizing written with
  | nil =>
    cases hwritten
    exact ⟨[], rfl, rfl⟩
  | cons f forms ih =>
    rw [List.map_cons, List.mapM_cons] at hwritten
    obtain ⟨x, hx, hrest⟩ := Option.bind_eq_some_iff.1 hwritten
    obtain ⟨xs, hxs, hcons⟩ := Option.bind_eq_some_iff.1 hrest
    cases hcons
    obtain ⟨p, hp, rfl⟩ := Option.map_eq_some_iff.1 hx
    obtain ⟨ps, hps, rfl⟩ := ih (fun f hf => htaken f (List.mem_cons_of_mem _ hf)) hxs
    have hread := (htaken f List.mem_cons_self).read.2 []
    rw [List.append_nil] at hread
    obtain ⟨⟨e, rest⟩, hfront, hof⟩ := Option.bind_eq_some_iff.1 hp
    cases hread.symm.trans hfront
    refine ⟨p :: ps, ?_, rfl⟩
    rw [List.mapM_cons, hps]
    simp only [hof, Option.bind_eq_bind, Option.bind_some, Option.pure_def]

section

variable {forms : List Element} {written : List Octets} (hforms : ∀ f ∈ forms, IsTaken f)
  (hwritten : (forms.map Element.raw).mapM Conformance.rewritten? = some written)
  (hlen : (envelope (forms.map Element.raw)).raw.length < 0x10000000000000000)
include hforms hwritten hlen

/-- The certificates are found in the content of an envelope. -/
theorem certificates?_signedData :
    certificates? (signedData (forms.map Element.raw)).content = some (some written) := by
  obtain ⟨ps, hps, hencodings⟩ := mapM_ofElement? hforms hwritten
  have helements := Canonical.elements_raw (isTaken_signedParts hlen)
  have hall := Canonical.elementAll_raw hforms
  unfold certificates?
  change (elements ((signedParts (forms.map Element.raw)).map Element.raw).flatten >>= _) = _
  rw [helements]
  have hcertificates : isContext 0 (element 0xA0 (forms.map Element.raw).flatten) = true := rfl
  have hinside : Element.all (element 0xA0 (forms.map Element.raw).flatten).content = some forms :=
    hall
  have hversion : Conformance.isInteger (element 0x02 (Der.naturalContent 1)) = true := by decide
  have hdigests : (elements (element 0x31 []).content).any (·.all Conformance.isAlgorithm) =
    true := by decide
  have hinner : isContentInfo (element 0x30 (Der.writeOid dataOid)) = true := by decide
  have hsigners : areSequences (element 0x31 []) = true := by decide
  have hset : (element 0x31 []).isUniversal 17 true = true := rfl
  have hrest : Conformance.dropOptional (fun e => isContext 1 e && areSequences e)
    [element 0x31 []] =
      [element 0x31 []] := rfl
  simp only [Option.bind_eq_bind, Option.bind_some, signedParts, hcertificates, if_true, hinside,
    hps, hencodings, Option.pure_def, hrest, hversion, hset, hdigests, hinner, hsigners,
    Bool.and_self]

/-- What an envelope is read as. -/
theorem read?_envelope : read? (envelope (forms.map Element.raw)).raw = some (some written) := by
  have htaken : IsTaken (envelope (forms.map Element.raw)) := isTaken_element (by decide) rfl hlen
  have hread := htaken.readElement.2 []
  rw [List.append_nil] at hread
  have houter : elements (envelope (forms.map Element.raw)).content =
    some (outerParts (forms.map Element.raw)) :=
    Canonical.elements_raw (isTaken_outerParts hlen)
  have hsigned : IsTaken (signedData (forms.map Element.raw)) :=
    isTaken_element (by decide) rfl (length_signedData_lt hlen)
  have hinner : elements (element 0xA0 (signedData (forms.map Element.raw)).raw).content =
      some [signedData (forms.map Element.raw)] := by
    change elements (signedData (forms.map Element.raw)).raw = _
    simpa using Canonical.elements_raw (List.forall_mem_singleton.2 hsigned)
  have hcontext : ∀ content, isContext 0 (element 0xA0 content) = true := fun _ => rfl
  have htype : Conformance.isOid (element 0x06 signedDataOid) = true := by decide
  unfold read?
  rw [hread]
  have henvelope : (envelope (forms.map Element.raw)).isUniversal 16 true = true := rfl
  have hdata : (signedData (forms.map Element.raw)).isUniversal 16 true = true := rfl
  have hoid : (element 0x06 signedDataOid).content = signedDataOid := rfl
  simp only [Option.map_some, Option.bind_eq_bind, Option.bind_some, houter, henvelope,
    Bool.not_true, Bool.false_eq_true, if_false, outerParts, htype, hcontext, Bool.and_self,
    if_true, hinner, hoid, hdata, certificates?_signedData hforms hwritten hlen]

end

end SignedData

namespace Certificate

/-- A certificate that is given back as it is when it is encoded anew. -/
def IsStrict (c : Certificate) : Prop := Canonical.certificate? c.der = some c.der

instance (c : Certificate) : Decidable c.IsStrict := inferInstanceAs (Decidable (_ = _))

def HasClearBits (c : Certificate) : Prop := Conformance.HasClearBits c.der

instance (c : Certificate) : Decidable c.HasClearBits :=
  inferInstanceAs (Decidable (Conformance.HasClearBits _))

theorem ofDer_spec {der : Octets} {c : Certificate} (h : ofDer der = .ok c) :
    c.der = der ∧ Conformance.isCertificate der = true :=
  (ofDer_eq_ok_iff.1 h).2

/-- The octets of what has been read are those that it was read from. -/
theorem map_der_of_mapM {ders : List Octets} {cs : List Certificate}
    (h : ders.mapM ofDer = .ok cs) : cs.map der = ders := by
  have hder : List.Forall₂ (fun der (c : Certificate) => der = c.der) ders cs :=
    (mapM_eq_ok_iff.1 h).imp fun der c hc => (ofDer_spec hc).1.symm
  rw [← List.forall₂_map_right_iff, List.forall₂_eq_eq_eq] at hder
  exact hder.symm

end Certificate

namespace CertificateChain

variable {chain : CertificateChain} {bs : Octets}

theorem toPkcs7_eq_ok_iff : toPkcs7 chain = .ok bs ↔ ∃ encodings,
    (chain.mapM fun c => Canonical.certificate? c.der) = some encodings ∧
      SignedData.write? encodings = some bs := by
  unfold toPkcs7
  rw [← Option.bind_eq_some_iff]
  cases (chain.mapM fun c => Canonical.certificate? c.der).bind SignedData.write? <;> simp

/-- What is exported is read again as the certificates encoded anew, and written once more. -/
theorem exists_members (hne : chain ≠ []) (hread : ∀ c ∈ chain, Certificate.ofDer c.der = .ok c)
    (hlen : bs.length < 0x10000000000000000) (h : toPkcs7 chain = .ok bs) :
    ∃ encodings members written,
      (chain.mapM fun c => Canonical.certificate? c.der) = some encodings ∧
      Canonical.sorted? encodings = some members ∧
      members.mapM Conformance.rewritten? = some written ∧
      ofPkcs7 bs = written.mapM Certificate.ofDer ∧
      (∀ x ∈ members, Conformance.HasClearBits x → Conformance.rewritten? x = some x) ∧
      ∀ y ∈ written, Canonical.certificate? y = some y ∧ Conformance.HasClearBits y := by
  obtain ⟨encodings, hencodings, hwrite⟩ := toPkcs7_eq_ok_iff.1 h
  obtain ⟨members, hsorted, rfl⟩ := SignedData.write?_eq_some_iff.1 hwrite
  have hperm := Canonical.perm_of_sorted? hsorted
  have hmember : ∀ x ∈ members, (∃ form : Element, IsTaken form ∧ form.raw = x) ∧
      (Conformance.HasClearBits x → Conformance.rewritten? x = some x) ∧
        ∃ y, Conformance.rewritten? x = some y ∧ Canonical.certificate? y = some y ∧
          Conformance.HasClearBits y := by
    intro x hx
    have hmem := hperm.mem_iff.1 hx
    rw [(Entries.mapM_eq_some_iff.1 hencodings).2, List.mem_filterMap] at hmem
    obtain ⟨c, hc, hcx⟩ := hmem
    exact (Canonical.exists_rewritten hcx (SignedData.length_member_lt hlen hx)
      (Certificate.ofDer_spec (hread c hc)).2).2
  obtain ⟨forms, hforms, rfl⟩ := exists_map_eq fun x hx => (hmember x hx).1
  have hsome : ∀ x ∈ forms.map Element.raw, (Conformance.rewritten? x).isSome = true := by
    intro x hx
    obtain ⟨y, hy, -⟩ := (hmember x hx).2.2
    rw [hy]
    rfl
  have hwritten := Entries.mapM_eq_some_iff.2 ⟨hsome, rfl⟩
  refine ⟨encodings, _, _, hencodings, hsorted, hwritten, ?_, fun x hx => (hmember x hx).2.1,
    fun y hy => ?_⟩
  · unfold ofPkcs7 readEnvelope?
    rw [SignedData.read?_envelope hforms hwritten hlen]
    cases forms with
    | nil =>
      -- there is a certificate, so there is an encoding
      obtain ⟨c, hc⟩ := List.exists_mem_of_ne_nil chain hne
      obtain ⟨hall, rfl⟩ := Entries.mapM_eq_some_iff.1 hencodings
      obtain ⟨x, hx⟩ := Option.isSome_iff_exists.1 (hall c hc)
      exact absurd (hperm.mem_iff.2 (List.mem_filterMap.2 ⟨c, hc, hx⟩)) List.not_mem_nil
    | cons f forms =>
      obtain ⟨y, hy⟩ := Option.isSome_iff_exists.1 (hsome f.raw List.mem_cons_self)
      rw [List.map_cons, List.filterMap_cons_some hy]
  · obtain ⟨x, hx, hxy⟩ := List.mem_filterMap.1 hy
    obtain ⟨y', hy', hclear⟩ := (hmember x hx).2.2
    cases hxy.symm.trans hy'
    exact hclear

/-- What becomes of a chain that is exported and read again. -/
structure IsExport (chain : CertificateChain) (bs : Octets) : Prop where
  encoded : ∃ encodings members written,
    (chain.mapM fun c => Canonical.certificate? c.der) = some encodings ∧
    Canonical.sorted? encodings = some members ∧
    members.mapM Conformance.rewritten? = some written ∧
      ofPkcs7 bs = written.mapM Certificate.ofDer
  returned : (∃ chain', ofPkcs7 bs = .ok chain' ∧ chain'.Perm chain) ↔
    ∀ c ∈ chain, c.IsStrict ∧ c.HasClearBits
  evaluated : ∀ chain', ofPkcs7 bs = .ok chain' → chain'.Perm chain → ∀ order, WellNamed order →
    chain.Perm order →
    ∀ {R : Type} [RevocationLookup R] [Cryptography] (context : TrustContext R) (time : Instant),
      evaluate chain' context time = evaluate chain context time

/-- Strict certificates are exported as they are. -/
theorem mapM_certificate?_of_isStrict (h : ∀ c ∈ chain, c.IsStrict) :
    (chain.mapM fun c => Canonical.certificate? c.der) = some (chain.map Certificate.der) := by
  rw [Entries.mapM_eq_some_iff]
  refine ⟨fun c hc => by rw [h c hc]; rfl, ?_⟩
  rw [List.filterMap_congr h, List.filterMap_eq_map']

theorem exists_perm_iff (hne : chain ≠ []) (hread : ∀ c ∈ chain, Certificate.ofDer c.der = .ok c)
    (hlen : bs.length < 0x10000000000000000) (h : toPkcs7 chain = .ok bs) :
    (∃ chain', ofPkcs7 bs = .ok chain' ∧ chain'.Perm chain) ↔
      ∀ c ∈ chain, c.IsStrict ∧ c.HasClearBits := by
  obtain ⟨encodings, members, written, hencodings, hsorted, hwritten, hof, hclear, hown⟩ :=
    exists_members hne hread hlen h
  rw [hof]
  constructor
  · rintro ⟨chain', hchain', hperm⟩ c hc
    refine hown c.der ?_
    rw [← Certificate.map_der_of_mapM hchain']
    exact List.mem_map_of_mem (hperm.mem_iff.2 hc)
  · intro hall
    rw [mapM_certificate?_of_isStrict fun c hc => (hall c hc).1, Option.some_inj] at hencodings
    subst hencodings
    obtain ⟨chain', hperm, rfl⟩ := Canonical.sorted?_map hsorted
    have hsame : (chain'.map Certificate.der).mapM Conformance.rewritten? =
      some (chain'.map Certificate.der) := by
      rw [mapM_eq_some_iff_forall₂, List.forall₂_same]
      intro x hx
      obtain ⟨c, hc, rfl⟩ := List.mem_map.1 hx
      exact hclear _ hx (hall c (hperm.mem_iff.1 hc)).2
    cases hsame.symm.trans hwritten
    refine ⟨chain', ?_, hperm⟩
    rw [mapM_eq_ok_iff, List.forall₂_map_left_iff, List.forall₂_same]
    exact fun c hc => hread c (hperm.mem_iff.1 hc)

theorem evaluate_eq_of_order {R : Type} [RevocationLookup R] [Cryptography]
    {chain' order : CertificateChain} (hperm : chain'.Perm chain) (hnamed : WellNamed order)
    (horder : chain.Perm order) (context : TrustContext R) (time : Instant) :
    evaluate chain' context time = evaluate chain context time := by
  unfold evaluate
  rw [hnamed.rootFirst_eq (hperm.trans horder), hnamed.rootFirst_eq horder]

/-- Certificates whose encodings are in order already are exported in that order. -/
theorem toPkcs7_of_pairwise {encodings : List Octets}
    (hencodings : (chain.mapM fun c => Canonical.certificate? c.der) = some encodings)
    (hle : encodings.Pairwise fun a b => Canonical.le a b = true)
    (hdistinct : Canonical.distinct encodings = true) :
    toPkcs7 chain = .ok (SignedData.envelope encodings).raw :=
  toPkcs7_eq_ok_iff.2 ⟨encodings, hencodings, SignedData.write?_eq_some_iff.2
    ⟨encodings, Canonical.sorted?_of_pairwise hle hdistinct, rfl⟩⟩

/-- Of a chain of strict certificates without set unused bits nothing is lost but the order. -/
theorem toPkcs7_isExport (hne : chain ≠ []) (hread : ∀ c ∈ chain, Certificate.ofDer c.der = .ok c)
    (hlen : bs.length < 0x10000000000000000) (h : toPkcs7 chain = .ok bs) : IsExport chain bs where
  encoded := by
    obtain ⟨encodings, members, written, hencodings, hsorted, hwritten, hof, -⟩ :=
      exists_members hne hread hlen h
    exact ⟨encodings, members, written, hencodings, hsorted, hwritten, hof⟩
  returned := exists_perm_iff hne hread hlen h
  evaluated _ _ hperm _ hnamed horder _ _ _ _ _ := evaluate_eq_of_order hperm hnamed horder _ _

/-- Three strict certificates, exported root first. -/
theorem toPkcs7_junk_isExport :
    ∃ (leaf mid root : Certificate) (bs : Octets),
      Certificate.ofDer JunkChain.leaf = .ok leaf ∧
        Certificate.ofDer JunkChain.intermediate = .ok mid ∧
      Certificate.ofDer JunkChain.root = .ok root ∧
      toPkcs7 [root, mid, leaf] = .ok bs ∧ (∀ c ∈ [root, mid, leaf], c.IsStrict ∧ c.HasClearBits) ∧
      IsExport [root, mid, leaf] bs := by
  obtain ⟨root, hroot⟩ := JunkChain.reads_root.exists_ofDer
  obtain ⟨mid, hmid⟩ := JunkChain.reads_intermediate.exists_ofDer
  obtain ⟨leaf, hleaf⟩ := JunkChain.reads_leaf.exists_ofDer
  have hr := (Certificate.ofDer_spec hroot).1
  have hm := (Certificate.ofDer_spec hmid).1
  have hl := (Certificate.ofDer_spec hleaf).1
  have hread : ∀ c ∈ [root, mid, leaf], Certificate.ofDer c.der = .ok c := by
    simp [hr, hm, hl, hroot, hmid, hleaf]
  have hstrict : ∀ c ∈ [root, mid, leaf], c.IsStrict ∧ c.HasClearBits := by
    have hall : ∀ der ∈ [JunkChain.root, JunkChain.intermediate, JunkChain.leaf],
        Canonical.certificate? der = some der ∧ Conformance.HasClearBits der := by
      decide +kernel
    simpa [Certificate.IsStrict, Certificate.HasClearBits, hr, hm, hl] using hall
  have hencodings := mapM_certificate?_of_isStrict fun c hc => (hstrict c hc).1
  simp only [List.map_cons, List.map_nil, hr, hm, hl] at hencodings
  have h := toPkcs7_of_pairwise hencodings (by decide +kernel) (by decide +kernel)
  exact ⟨leaf, mid, root, _, hleaf, hmid, hroot, h, hstrict,
    toPkcs7_isExport (List.cons_ne_nil _ _) hread (by decide +kernel) h⟩

end CertificateChain

namespace StatedDefault

/-- A self-signed root. Its constraints are marked as not critical, which is what they are without
a mark. -/
def root : Octets :=
  .ofNat 40 0x308201223081c8a003020102020101300a06082a8648ce3d040302300f310d300b06035504030c04 ++
  .ofNat 40 0x526f6f743020170d3234303130313030303030305a180f32303939313233313030303030305a300f ++
  .ofNat 40 0x310d300b06035504030c04526f6f743059301306072a8648ce3d020106082a8648ce3d0301070342 ++
  .ofNat 40 0x00042dbeb996f906794c8035541d5b563a20a9ddc1e97b5fe158a74db9642f8d2134b279c482d153 ++
  .ofNat 40 0xff1a33d79828ca5a93c19938354e6a39ce17cde3f7e6064972e0a3133011300f0603551d13010100 ++
  .ofNat 40 0x040530030101ff300a06082a8648ce3d0403020349003046022100c14b72d0e78371f9bbf8b4084b ++
  .ofNat 40 0x40d12445e4e296b56b5e6778e6e70f536b77510221009f05f70e57cb94cfd0d5a08c3728bd12b563 ++
  .ofNat 14 0x965eeb6e829630c12205c71476e2

def encoded : Octets :=
  .ofNat 40 0x3082011f3081c5a003020102020101300a06082a8648ce3d040302300f310d300b06035504030c04 ++
  .ofNat 40 0x526f6f743020170d3234303130313030303030305a180f32303939313233313030303030305a300f ++
  .ofNat 40 0x310d300b06035504030c04526f6f743059301306072a8648ce3d020106082a8648ce3d0301070342 ++
  .ofNat 40 0x00042dbeb996f906794c8035541d5b563a20a9ddc1e97b5fe158a74db9642f8d2134b279c482d153 ++
  .ofNat 40 0xff1a33d79828ca5a93c19938354e6a39ce17cde3f7e6064972e0a310300e300c0603551d13040530 ++
  .ofNat 40 0x030101ff300a06082a8648ce3d0403020349003046022100c14b72d0e78371f9bbf8b4084b40d124 ++
  .ofNat 40 0x45e4e296b56b5e6778e6e70f536b77510221009f05f70e57cb94cfd0d5a08c3728bd12b563965eeb ++
  .ofNat 11 0x6e829630c12205c71476e2

def status (c : Certificate) : CertificateStatus :=
  (c.standing c RevocationStore.empty JunkChain.time).status

theorem reads_root : Reads root fun c => c.isSelfIssued && status c == .normal := by
  decide +kernel

theorem reads_encoded : Reads encoded fun c => status c == .sign := by
  decide +kernel

end StatedDefault

namespace CertificateChain

/-- A chain of one certificate that is not the same after it has been exported: its signature does
not hold any more. -/
theorem exported_unsigned :
    ∃ (c c' : Certificate) (bs : Octets) (e e' : ChainEvaluation),
      Certificate.ofDer StatedDefault.root = .ok c ∧ WellNamed [c] ∧
      toPkcs7 [c] = .ok bs ∧ ofPkcs7 bs = .ok [c'] ∧ c'.der ≠ c.der ∧
      evaluate [c] { revocation := RevocationStore.empty } JunkChain.time = .ok e ∧
      evaluate [c'] { revocation := RevocationStore.empty } JunkChain.time = .ok e' ∧
      e.certificates.map CertificateFinding.status = [.normal] ∧
      e'.certificates.map CertificateFinding.status = [.sign] := by
  obtain ⟨c, hc⟩ := StatedDefault.reads_root.exists_ofDer
  obtain ⟨c', hc'⟩ := StatedDefault.reads_encoded.exists_ofDer
  have hder := (Certificate.ofDer_spec hc).1
  have hder' := (Certificate.ofDer_spec hc').1
  have hnormal := StatedDefault.reads_root.of_ofDer hc
  have hsign := StatedDefault.reads_encoded.of_ofDer hc'
  simp only [StatedDefault.status, Bool.and_eq_true, beq_iff_eq] at hnormal hsign
  have hencodings : ([c].mapM fun c => Canonical.certificate? c.der) =
    some [StatedDefault.encoded] := by
    have hencoded : Canonical.certificate? StatedDefault.root = some StatedDefault.encoded := by
      decide +kernel
    simp [hder, hencoded]
  have hsorted : Canonical.sorted? [StatedDefault.encoded] = some [StatedDefault.encoded] :=
    Canonical.sorted?_of_pairwise (List.pairwise_singleton _ _) rfl
  have h := toPkcs7_of_pairwise hencodings (List.pairwise_singleton _ _) rfl
  have hread : ∀ x ∈ [c], Certificate.ofDer x.der = .ok x := by
    simp [hder, hc]
  obtain ⟨xs, members, written, hxs, hmembers, hwritten, hof, hclear, -⟩ :=
    exists_members (List.cons_ne_nil _ _) hread (by decide +kernel) h
  cases hencodings.symm.trans hxs
  cases hsorted.symm.trans hmembers
  rw [List.mapM_cons, hclear _ (List.mem_singleton_self _) (by decide +kernel)] at hwritten
  cases hwritten
  have hwalk : ∀ x : Certificate, (rootFirst [x]).walked = [x] := by
    intro x
    simp [rootFirst, isLeafFirst, walked]
  refine ⟨c, c', _, _, _, hc, ?_, h, ?_, ?_, evaluate_eq (hwalk c) _ _, evaluate_eq (hwalk c') _ _,
    ?_, ?_⟩
  · exact ⟨⟨List.pairwise_singleton _ _, List.isChain_singleton _⟩, by simp [hnormal.1]⟩
  · rw [hof, List.mapM_cons, hc']
    rfl
  · rw [hder, hder']
    decide +kernel
  · simpa [findings, CertificateFinding.status, Certificate.finding] using hnormal.2
  · simpa [findings, CertificateFinding.status, Certificate.finding] using hsign

end CertificateChain

end AttestedKey
