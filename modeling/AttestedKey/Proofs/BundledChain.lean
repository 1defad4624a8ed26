import AttestedKey.Proofs.ExportedChain
import AttestedKey.Proofs.JoinedChain
import AttestedKey.Proofs.PemBlocks

/-! Chains as a text block for each certificate. Such text is taken for blocks and nothing else,
and every block gives its certificate with the shortest lengths and no unused bits set, but inside
the signed part (`Certificate.rewritten?`). So the blocks of a chain are loaded as the chain
exactly if every certificate is so already (`IsLoading`), and as other octets if one is not
(`load_bundle_ne`). -/

namespace AttestedKey

open Der (Element)

namespace SignedData

/-- Elements of definite length are among those that an envelope is made of. -/
theorem covers_readElement : Reader.Covers Element.read readElement := by
  intro bs e rest h
  obtain ⟨hd, behind, n, content, hheader, hn, hsplit, rfl⟩ := Der.read_eq_some_iff.1 h
  unfold readElement Ber.content
  simp only [hheader, hn, Option.bind_eq_bind, Option.bind_some, Ber.maxDepth, hsplit,
    Option.pure_def]
  rfl

theorem elements_of_all {bs : Octets} {es : List Element} (h : Element.all bs = some es) :
    elements bs = some es :=
  covers_readElement.allWithin h

/-- A certificate is no envelope, as it has three parts. -/
theorem read?_eq_none {bs : Octets} {p : Conformance.Parts}
    (h : Conformance.Parts.ofFront? bs = some p) : read? bs = none := by
  obtain ⟨⟨e, rest⟩, hread, h⟩ := Option.bind_eq_some_iff.1 h
  obtain ⟨es, hes, h⟩ := Option.bind_eq_some_iff.1 h
  unfold Element.sequence? at hes
  split at hes
  · next huniversal =>
    split at h
    · unfold read?
      rw [covers_readElement _ _ _ hread]
      simp only [Option.bind_eq_bind, Option.bind_some, huniversal, Bool.not_true,
        Bool.false_eq_true, if_false, elements_of_all hes]
    · cases h
  · cases hes

/-- Text that begins with a mark is no envelope. -/
theorem read?_hyphen (bs : Octets) : read? (0x2D :: bs) = none := by
  unfold read? readElement
  cases hheader : Ber.header (0x2D :: bs) with
  | none => rfl
  | some p =>
    obtain ⟨hd, behind⟩ := p
    have htag : hd.tag = 13 := Ber.tag_of_header (by decide) hheader
    simp only [Option.bind_eq_bind, Option.bind_some]
    cases Ber.content Ber.maxDepth hd behind with
    | none => rfl
    | some q => simp [Element.isUniversal, htag]

end SignedData

namespace CertificateFields

/-- Text that begins with a mark begins no certificate. -/
theorem read_hyphen (bs : Octets) : read (0x2D :: bs) = none := by
  rw [Option.eq_none_iff_forall_ne_some]
  rintro ⟨fields, der, rest⟩ hread
  obtain ⟨e, he, htag, -⟩ := read_eq_some_iff.1 hread
  obtain ⟨hd, behind, n, content, hheader, -, -, rfl⟩ := Der.read_eq_some_iff.1 he
  have hthirteen : hd.tag = 13 := Ber.tag_of_header (by decide) hheader
  rw [hthirteen] at htag
  cases htag

end CertificateFields

namespace Certificate

variable {c : Certificate}

/-- What a certificate is read as out of a text block. -/
def rewritten? (c : Certificate) : Option Octets := Conformance.rewritten? c.der

/-- A certificate that is the same out of a text block: but inside the signed part, its lengths are
the shortest and no unused bits are set. -/
def IsShortest (c : Certificate) : Prop := c.rewritten? = some c.der

instance (c : Certificate) : Decidable c.IsShortest := inferInstanceAs (Decidable (_ = _))

theorem exists_parts (h : ofDer c.der = .ok c) :
    ∃ p, Conformance.Parts.ofFront? c.der = some p := by
  have hconforms := (ofDer_eq_ok_iff.1 h).2.2
  unfold Conformance.isCertificate at hconforms
  split at hconforms
  · next e hread =>
    obtain ⟨p, hp⟩ := Option.isSome_iff_exists.1 hconforms
    exact ⟨p, Option.bind_eq_some_iff.2 ⟨_, hread, hp⟩⟩
  · cases hconforms

theorem IsStrict.isShortest (h : c.IsStrict) (hclear : c.HasClearBits) (hread : ofDer c.der = .ok c)
    (hlen : c.der.length < 0x10000000000000000) : c.IsShortest :=
  (Canonical.exists_rewritten h hlen (ofDer_spec hread).2).2.2.1 hclear

end Certificate

namespace CertificateChain

def certificateLabel : Octets := Octets.ofAscii "CERTIFICATE"

theorem isLabel_certificateLabel : Pem.IsLabel certificateLabel := by
  have hplain : certificateLabel.all Pem.isPlain = true := by decide
  exact ⟨by decide, fun b hb => .inr (List.all_eq_true.1 hplain b hb)⟩

def bundle (chain : CertificateChain) : Octets :=
  (chain.map Certificate.der).flatMap (Pem.write certificateLabel)

variable {chain : CertificateChain}

theorem exists_bundle_eq (hne : chain ≠ []) : ∃ bs, bundle chain = 0x2D :: bs := by
  obtain ⟨c, chain, rfl⟩ := List.exists_cons_of_ne_nil hne
  have hmark : Pem.beginMark = 0x2D :: Pem.beginMark.tail := by decide
  unfold bundle Pem.write Pem.joinedLines Pem.markLine
  rw [hmark]
  exact ⟨_, rfl⟩

theorem exists_ofDer_bundle (hne : chain ≠ []) : ∃ e, ofDer (bundle chain) = .error e := by
  obtain ⟨bs, hbs⟩ := exists_bundle_eq hne
  rw [hbs]
  have hfaulty :=
    Faulty.unreadable (n := 0) (List.cons_ne_nil _ _) (CertificateFields.read_hyphen bs)
  exact ⟨_, ofDer_eq_error_iff.2 (.inr ⟨[], _, by simp, rfl, hfaulty⟩)⟩

/-- The blocks are found again, and nothing else. -/
theorem pemParts?_write (contents : List Octets) :
    pemParts? (contents.flatMap (Pem.write certificateLabel)) =
      contents.mapM Conformance.Parts.ofFront? := by
  have hwanted : isCertificateLabel certificateLabel = true := by decide
  unfold pemParts?
  rw [Pem.all_flatMap_write isLabel_certificateLabel hwanted]
  rfl

/-- How a chain is loaded, one certificate behind the other and as text blocks. -/
structure IsLoading (chain : CertificateChain) : Prop where
  split : load (joined chain) = .ok chain
  bundled : ∃ forms, chain.mapM Certificate.rewritten? = some forms ∧
    load (bundle chain) = (forms.mapM Certificate.ofDer).mapError fun _ => .syntaxError "PKCS#7"
  same_iff : load (bundle chain) = load (joined chain) ↔ ∀ c ∈ chain, c.IsShortest
  strict : (∀ c ∈ chain, c.IsStrict ∧ c.HasClearBits ∧ c.der.length < 0x10000000000000000) →
    load (bundle chain) = load (joined chain)

section

variable (hne : chain ≠ []) (hread : ∀ c ∈ chain, Certificate.ofDer c.der = .ok c)
include hne hread

theorem exists_ofPem_bundle :
    ∃ forms, chain.mapM Certificate.rewritten? = some forms ∧
      ofPem (bundle chain) = forms.mapM Certificate.ofDer := by
  let parts := chain.filterMap fun c => Conformance.Parts.ofFront? c.der
  have hsome : ∀ c ∈ chain, (Conformance.Parts.ofFront? c.der).isSome = true := fun c hc =>
    Option.isSome_iff_exists.2 (Certificate.exists_parts (hread c hc))
  have hparts : pemParts? (bundle chain) = some parts := by
    rw [bundle, pemParts?_write, List.mapM_map]
    exact Entries.mapM_eq_some_iff.2 ⟨hsome, rfl⟩
  refine ⟨parts.map Conformance.Parts.encoding,
    Entries.mapM_eq_some_iff.2 ⟨fun c hc => ?_, List.map_filterMap⟩, ?_⟩
  · rw [Certificate.rewritten?, Conformance.rewritten?, Option.isSome_map]
    exact hsome c hc
  · have hnonempty : parts ≠ [] := by
      obtain ⟨c, chain, rfl⟩ := List.exists_cons_of_ne_nil hne
      obtain ⟨p, hp⟩ := Certificate.exists_parts (hread c List.mem_cons_self)
      simp [parts, hp]
    obtain ⟨p, rest, hcons⟩ := List.exists_cons_of_ne_nil hnonempty
    unfold ofPem
    rw [hparts, List.mapM_map, hcons]
    rfl

/-- The blocks are no envelope either, and the first of them holds none. -/
theorem ofPkcs7_bundle : ofPkcs7 (bundle chain) = .error (.syntaxError "PKCS#7") := by
  obtain ⟨bs, hbs⟩ := exists_bundle_eq hne
  obtain ⟨c, chain, rfl⟩ := List.exists_cons_of_ne_nil hne
  obtain ⟨p, hp⟩ := Certificate.exists_parts (hread c List.mem_cons_self)
  have hwanted : isSignedDataLabel certificateLabel = true := by decide
  have hfirst : Pem.first? isSignedDataLabel (bundle (c :: chain)) = some c.der :=
    Pem.first?_write isLabel_certificateLabel hwanted c.der _
  have htext : SignedData.read? (bundle (c :: chain)) = none := by
    rw [hbs]
    exact SignedData.read?_hyphen bs
  unfold ofPkcs7 readEnvelope?
  simp only [htext, hfirst, Option.bind_some, SignedData.read?_eq_none hp]

theorem load_joined : load (joined chain) = .ok chain := by
  unfold load
  rw [ofDer_eq_ok_iff.2 ⟨hne, hread, rfl⟩]

theorem exists_load_bundle : ∃ forms, chain.mapM Certificate.rewritten? = some forms ∧
    load (bundle chain) = (forms.mapM Certificate.ofDer).mapError fun _ =>
      .syntaxError "PKCS#7" := by
  obtain ⟨e, hder⟩ := exists_ofDer_bundle hne
  obtain ⟨forms, hforms, hpem⟩ := exists_ofPem_bundle hne hread
  refine ⟨forms, hforms, ?_⟩
  unfold load
  rw [hder, hpem, ofPkcs7_bundle hne hread]
  cases forms.mapM Certificate.ofDer <;> rfl

theorem load_bundle_eq_iff :
    load (bundle chain) = load (joined chain) ↔ ∀ c ∈ chain, c.IsShortest := by
  obtain ⟨forms, hforms, hload⟩ := exists_load_bundle hne hread
  rw [load_joined hne hread, hload]
  constructor
  · intro hok
    have hall : forms.mapM Certificate.ofDer = .ok chain := by
      cases hmapM : forms.mapM Certificate.ofDer with
      | error e =>
        rw [hmapM] at hok
        cases hok
      | ok chain' =>
        rw [hmapM] at hok
        cases hok
        rfl
    have hder : chain.map Certificate.der = forms := Certificate.map_der_of_mapM hall
    rw [mapM_eq_some_iff_forall₂, ← hder, List.forall₂_map_right_iff, List.forall₂_same] at hforms
    exact hforms
  · intro hshortest
    have hder : chain.mapM Certificate.rewritten? = some (chain.map Certificate.der) := by
      rw [mapM_eq_some_iff_forall₂, List.forall₂_map_right_iff, List.forall₂_same]
      exact hshortest
    cases hder.symm.trans hforms
    have hall : (chain.map Certificate.der).mapM Certificate.ofDer = .ok chain := by
      rw [mapM_eq_ok_iff, List.forall₂_map_left_iff, List.forall₂_same]
      exact hread
    rw [hall]
    rfl

/-- The blocks of a chain are loaded as the chain, but for lengths that could be shorter and unused
bits. -/
theorem load_isLoading : IsLoading chain where
  split := load_joined hne hread
  bundled := exists_load_bundle hne hread
  same_iff := load_bundle_eq_iff hne hread
  strict h := (load_bundle_eq_iff hne hread).2 fun c hc =>
    (h c hc).1.isShortest (h c hc).2.1 (hread c hc) (h c hc).2.2

end

/-- Three certificates that are loaded the same either way. -/
theorem load_junk_isLoading :
    ∃ leaf mid root : Certificate,
      Certificate.ofDer JunkChain.leaf = .ok leaf ∧
        Certificate.ofDer JunkChain.intermediate = .ok mid ∧
      Certificate.ofDer JunkChain.root = .ok root ∧ IsLoading [leaf, mid, root] ∧
      load (bundle [leaf, mid, root]) = load (joined [leaf, mid, root]) := by
  obtain ⟨leaf, hleaf⟩ := JunkChain.reads_leaf.exists_ofDer
  obtain ⟨mid, hmid⟩ := JunkChain.reads_intermediate.exists_ofDer
  obtain ⟨root, hroot⟩ := JunkChain.reads_root.exists_ofDer
  have hl := (Certificate.ofDer_spec hleaf).1
  have hm := (Certificate.ofDer_spec hmid).1
  have hr := (Certificate.ofDer_spec hroot).1
  have hread : ∀ c ∈ [leaf, mid, root], Certificate.ofDer c.der = .ok c := by
    simp [hl, hm, hr, hleaf, hmid, hroot]
  have hstrict : ∀ c ∈ [leaf, mid, root], c.IsStrict ∧ c.HasClearBits ∧
    c.der.length < 0x10000000000000000 := by
    have hall : ∀ der ∈ [JunkChain.leaf, JunkChain.intermediate, JunkChain.root],
        Canonical.certificate? der = some der ∧ Conformance.HasClearBits der ∧
          der.length < 0x10000000000000000 := by
      decide +kernel
    simpa [Certificate.IsStrict, Certificate.HasClearBits, hl, hm, hr] using hall
  have h := load_isLoading (List.cons_ne_nil _ _) hread
  exact ⟨leaf, mid, root, hleaf, hmid, hroot, h, h.strict hstrict⟩

end CertificateChain

namespace LongLength

/-- A root that says its length in three octets, the first of them zero. -/
def root : Octets := [0x30, 0x83, 0x00, 0x01, 0x72] ++ JunkChain.root.drop 4

theorem reads_root : Reads root fun c => c.rewritten? == some JunkChain.root := by
  decide +kernel

end LongLength

namespace CertificateChain

/-- A chain of one certificate whose text block is loaded as other octets than its own. -/
theorem load_bundle_ne :
    ∃ c c' : Certificate, Certificate.ofDer LongLength.root = .ok c ∧
      Certificate.ofDer JunkChain.root = .ok c' ∧
      load (joined [c]) = .ok [c] ∧ load (bundle [c]) = .ok [c'] ∧ c'.der ≠ c.der := by
  obtain ⟨c, hc⟩ := LongLength.reads_root.exists_ofDer
  obtain ⟨c', hc'⟩ := JunkChain.reads_root.exists_ofDer
  have hder := (Certificate.ofDer_spec hc).1
  have hder' := (Certificate.ofDer_spec hc').1
  have hrewritten : c.rewritten? = some JunkChain.root :=
    beq_iff_eq.1 (LongLength.reads_root.of_ofDer hc)
  have hread : ∀ x ∈ [c], Certificate.ofDer x.der = .ok x := by
    simp [hder, hc]
  obtain ⟨forms, hforms, hload⟩ := exists_load_bundle (List.cons_ne_nil _ _) hread
  have hone : forms = [JunkChain.root] := by
    rw [List.mapM_cons, hrewritten] at hforms
    exact (Option.some.inj hforms).symm
  refine ⟨c, c', hc, hc', load_joined (List.cons_ne_nil _ _) hread, ?_, ?_⟩
  · rw [hload, hone, List.mapM_cons, hc']
    rfl
  · rw [hder, hder']
    decide +kernel

end CertificateChain

end AttestedKey
