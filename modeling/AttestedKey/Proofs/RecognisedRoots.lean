import AttestedKey.Proofs.BundleAddition
import AttestedKey.Proofs.CertificateKey
import AttestedKey.Proofs.KeyEncoding
import AttestedKey.Proofs.Verdict

/-! Roots out of a bundle of certificates. What is added for a certificate is its key in the key's
own encoding, and what a chain is judged by is the key info as it stands in its root. So a root of
the bundle is recognised if its key info is the own encoding of the key, and if it is not, only
where it is known without the bundle (`IsRootAddition`). There is a certificate that is added and
not recognised (`classify_bareRoot`). -/

namespace AttestedKey.TrustAnchors

/-- The key is taken for one that is known from the start, or for one of a manufacturer. -/
def Recognises (a : TrustAnchors) (key : Octets) : Prop :=
  a.classify key = .manufacturer ∨ IsKnownKey (a.classify key) key

/-- A certificate of a bundle: the octets of a block, or what the block is loaded as. -/
inductive IsCertificateOf (pem : Octets) (c : Certificate) : Prop
  | block {contents : List Octets} :
      Pem.all CertificateChain.isCertificateLabel pem = some contents → c.der ∈ contents →
      IsCertificateOf pem c
  | loaded {parts : List Conformance.Parts} {p : Conformance.Parts} :
      CertificateChain.pemParts? pem = some parts → p ∈ parts → c.der = p.encoding →
      c.der.length < 0x10000000000000000 → IsCertificateOf pem c

/-- Whichever it is, the key is that of one of the parts. -/
theorem IsCertificateOf.exists_part {pem : Octets} {c : Certificate}
    {parts : List Conformance.Parts} (h : IsCertificateOf pem c)
    (hc : Certificate.ofDer c.der = .ok c) (hparts : CertificateChain.pemParts? pem = some parts) :
    ∃ p ∈ parts, c.keyInfo = p.keyInfo.raw := by
  obtain ⟨contents, hcontents, hread⟩ := Option.bind_eq_some_iff.1 hparts
  obtain ⟨hall, rfl⟩ := Entries.mapM_eq_some_iff.1 hread
  cases h with
  | block hcontents' hmem =>
    cases hcontents.symm.trans hcontents'
    obtain ⟨p, hp⟩ := Certificate.exists_parts hc
    exact ⟨p, List.mem_filterMap.2 ⟨c.der, hmem, hp⟩, Certificate.keyInfo_eq hc hp⟩
  | loaded hparts' hmem hder hlen =>
    cases hparts.symm.trans hparts'
    obtain ⟨bs, -, hp⟩ := List.mem_filterMap.1 hmem
    exact ⟨_, hmem, Certificate.keyInfo_eq_of_encoding hc hp hder hlen⟩

variable [Cryptography]

theorem recognises_after_iff (additions : List Addition) (key : Octets) :
    (after additions).Recognises key ↔ Offered additions key ∨ ∃ issuer, IsKnownKey issuer key := by
  have hclassified := classified_after additions key
  unfold Recognises
  generalize (after additions).classify key = issuer at hclassified
  cases hclassified with
  | known h => exact ⟨fun _ => .inr ⟨_, h⟩, fun _ => .inr h⟩
  | added _ h => exact ⟨fun _ => .inl h, fun _ => .inl rfl⟩
  | unknown hknown h =>
    constructor
    · rintro (h | h)
      · cases h
      · exact absurd h (hknown _)
    · rintro (h' | ⟨issuer, h'⟩)
      · exact absurd h' h
      · exact absurd h' (hknown _)

theorem not_recognises_after_iff (additions : List Addition) (key : Octets) :
    ¬ (after additions).Recognises key ↔ (after additions).classify key = .unknown := by
  rw [recognises_after_iff, classify_after_iff, not_or, not_exists]
  constructor
  · exact fun h => .unknown h.2 h.1
  · intro h
    cases h with
    | known h => exact absurd h.issuer_eq (by decide)
    | unknown hknown h => exact ⟨h, hknown⟩

theorem after_append_bundle (before : List Addition) (pem : Octets) :
    after (before ++ [.bundle pem]) = ((after before).addPem pem).2 := by
  rw [after, List.foldl_append]
  rfl

/-- The same for a bundle and nothing before it. -/
theorem after_bundle (pem : Octets) : after [.bundle pem] = (empty.addPem pem).2 := rfl

theorem offered_append (before : List Addition) (x : Addition) (key : Octets) :
    Offered (before ++ [x]) key ↔ Offered before key ∨ key ∈ x.offers := by
  simp [Offered, or_and_right, exists_or]

section

variable {before : List Addition} {pem : Octets} {n : Nat}
    (hok : ((after before).addPem pem).1 = .ok n)
include hok

theorem exists_parts_of_ok : ∃ parts, CertificateChain.pemParts? pem = some parts := by
  refine Option.ne_none_iff_exists'.1 fun hnone => ?_
  have herror : ((after before).addPem pem).1 = .error _ :=
    addPem_eq_error_iff.2 (.inl ⟨hnone, rfl⟩)
  cases herror.symm.trans hok

/-- What a bundle that is added whole offers. -/
theorem mem_offers_iff {parts : List Conformance.Parts}
    (hparts : CertificateChain.pemParts? pem = some parts) (key : Octets) :
    key ∈ (Addition.bundle pem).offers ↔ ∃ p ∈ parts, keyOf? p = some key := by
  have hreadable : none ∉ parts.map keyOf? := by
    intro hmem
    obtain ⟨p, hp, hnone⟩ := List.mem_map.1 hmem
    obtain ⟨key, hkey, -⟩ := addPem_whole (after_known before) hok hparts hp
    cases hnone.symm.trans hkey
  rw [Addition.offers, hparts, Option.map_some, Option.getD_some, mem_readable_iff hreadable,
    List.mem_map]

end

/-- How a root that is a certificate of a bundle is recognised, after additions and that of the
bundle. -/
structure IsRootAddition (before : List Addition) (pem : Octets) (c : Certificate) : Prop where
  readable : ∃ written, Cryptography.reencode? c.keyInfo = some written ∧
    ((after before).addPem pem).2.Recognises written
  own : Cryptography.IsOwnEncoding c.keyInfo → ((after before).addPem pem).2.Recognises c.keyInfo
  /-- If not, the bundle makes no difference. -/
  recognises_iff : c.keyInfo.length < 0x10000000000000000 →
    (((after before).addPem pem).2.Recognises c.keyInfo ↔
      Cryptography.IsOwnEncoding c.keyInfo ∨ (after before).Recognises c.keyInfo)
  unknown_iff : ((after before).addPem pem).2.classify c.keyInfo = .unknown ↔
    ¬ ((after before).addPem pem).2.Recognises c.keyInfo
  chain : ∀ (R : Type) [RevocationLookup R] (revocation : R) (chain : CertificateChain)
    (time : Instant),
    (CertificateChain.rootFirst chain).head? = some c →
      ∃ e, chain.evaluate ⟨revocation, ((after before).addPem pem).2⟩ time = .ok e ∧
        (e.issuer = .unknown ↔
          ¬ Fails revocation (CertificateChain.rootFirst chain) e.certificates.length ∧
          ¬ ((after before).addPem pem).2.Recognises c.keyInfo)

/-- Whatever was added before. -/
theorem addPem_isRootAddition [LawfulCryptography] {before : List Addition} {pem : Octets} {n : Nat}
    {c : Certificate} (hok : ((after before).addPem pem).1 = .ok n) (hof : IsCertificateOf pem c)
    (hc : Certificate.ofDer c.der = .ok c) : IsRootAddition before pem c := by
  obtain ⟨parts, hparts⟩ := exists_parts_of_ok hok
  obtain ⟨p, hp, hkeyInfo⟩ := hof.exists_part hc hparts
  have hoffers := mem_offers_iff hok hparts
  have hrecognises := recognises_after_iff (before ++ [.bundle pem])
  have hunknown := not_recognises_after_iff (before ++ [.bundle pem])
  simp only [after_append_bundle, offered_append, hoffers] at hrecognises hunknown
  have hown : Cryptography.IsOwnEncoding c.keyInfo →
    ((after before).addPem pem).2.Recognises c.keyInfo := by
    intro hown
    rw [Cryptography.IsOwnEncoding, hkeyInfo] at hown
    exact (hrecognises _).2 (.inl (.inr ⟨p, hp, hkeyInfo ▸ hown⟩))
  refine ⟨?_, hown, fun hlen => ?_, (hunknown _).symm, fun R _ revocation chain time hroot => ?_⟩
  · obtain ⟨key, hkey, -⟩ := addPem_whole (after_known before) hok hparts hp
    exact ⟨key, hkeyInfo ▸ hkey, (hrecognises _).2 (.inl (.inr ⟨p, hp, hkey⟩))⟩
  · constructor
    · rw [hrecognises, recognises_after_iff]
      rintro ((hbefore | ⟨q, -, hq⟩) | hknown)
      · exact .inr (.inl hbefore)
      · -- what the library has written for a key, whosever it is
        exact .inl (LawfulCryptography.isOwnEncoding hq hlen)
      · exact .inr (.inr hknown)
    · rintro (h | h)
      · exact hown h
      · rw [recognises_after_iff] at h
        exact (hrecognises _).2 (h.imp .inl id)
  · cases chain with
    | nil => cases hroot
    | cons d rest =>
      rcases CertificateChain.evaluate_cases (d :: rest)
        ⟨revocation, after (before ++ [.bundle pem])⟩ time with
        ⟨hnil, -⟩ | ⟨e, he, hdescribes⟩
      · exact absurd hnil (CertificateChain.rootFirst_ne_nil (List.cons_ne_nil d rest))
      · obtain ⟨root, hroot', hverdict⟩ := isVerdict_of_describes hdescribes
        cases hroot.symm.trans hroot'
        rw [after_append_bundle] at he
        refine ⟨e, he, ?_⟩
        rw [hverdict.unknown, hrecognises, not_or, not_exists, offered_append, hoffers]

/-- A bundle of one certificate, whose key is new. -/
theorem addPem_singleton {a : TrustAnchors} (ha : a.known = knownKeys) {pem : Octets}
    {parts : List Conformance.Parts} {key : Octets}
    (hparts : CertificateChain.pemParts? pem = some parts) (hkeys : parts.map keyOf? = [some key])
    (hnew : key ∉ a.added) (hother : ¬ IsKnownKey .google key) : (a.addPem pem).1 = .ok 1 := by
  obtain ⟨new, hgrows, hcount⟩ := grows_add ha key
  have hmem : key ∈ new := (hgrows.mem key).2 ⟨List.mem_singleton_self key, hnew, hother⟩
  have hadded : (a.add key).1 = true := by
    cases hfirst : (a.add key).1 with
    | true => rfl
    | false =>
      rw [hfirst] at hcount
      rw [List.eq_nil_of_length_eq_zero hcount.symm] at hmem
      cases hmem
  obtain ⟨p, rfl⟩ :=
    List.length_eq_one_iff.1 ((List.length_map keyOf?).symm.trans (congrArg List.length hkeys))
  unfold addPem
  rw [hparts]
  simp only [hkeys, addKeys, hadded, if_true]

end AttestedKey.TrustAnchors

namespace AttestedKey.BareRoot

/-- A certificate with an RSA key whose algorithm has no parameters, where others have a NULL. -/
def der : Octets :=
  .ofNat 40 0x3082023a308201e0a003020102020101300a06082a8648ce3d040302303731153013060355040a0c ++
  .ofNat 40 0x0c4578616d706c6520436f7270311e301c06035504030c1554657374204174746573746174696f6e ++
  .ofNat 40 0x20526f6f743020170d3234303130313030303030305a180f32303939313233313030303030305a30 ++
  .ofNat 40 0x3731153013060355040a0c0c4578616d706c6520436f7270311e301c06035504030c155465737420 ++
  .ofNat 40 0x4174746573746174696f6e20526f6f7430820120300b06092a864886f70d0101010382010f003082 ++
  .ofNat 40 0x010a0282010100b8d0261ccebe0eb3650e0263a39385422a581a64d10744df0741778cfbbdf5d268 ++
  .ofNat 40 0xa81f451c1cb972d1e71529187848fe329cd335a259c7e617e79863c941ef02e82f92bb03cce3123a ++
  .ofNat 40 0xc9ec2fda7b01412c3022a88eaef538111afad07d4a6960686c3bbd544cdfdb3c5bfefc9db3a2646a ++
  .ofNat 40 0xf4bbe1307ba8e513e850b193522f675b03f56c2ab91429341a11b6ed686e2b3a25e7646a7297169b ++
  .ofNat 40 0x80067d40a49484b94f86e084283a1339c7394fb915baddbc6407a70d0153bdc30dec8aafc1e2392f ++
  .ofNat 40 0x545dfab9cd7ed739fdaa63f62416daf3da0b12f2935b5bb1cf983f0215c6fa10e50ff07e696827c9 ++
  .ofNat 40 0x6e8d5cedbeb83a85b6554d6e6a2d91e770dabbd80878cd0203010001a3123010300e0603551d0f01 ++
  .ofNat 40 0x01ff040403020780300a06082a8648ce3d0403020348003045022100ef2476430e849b5a922d974c ++
  .ofNat 40 0x4bf7b0e41420fb0a657e2140834ac72b0b751eac02204e16540fc7b004a846d7324254f403244773 ++
  .ofNat 14 0xc5c8b60c423cad9f76be3331cf2d

def pem : Octets := Pem.write CertificateChain.certificateLabel der

def keyInfo : Octets := (der.drop 176).take 292

theorem all_pem : Pem.all CertificateChain.isCertificateLabel pem = some [der] := by
  have hall := Pem.all_flatMap_write CertificateChain.isLabel_certificateLabel
    (show CertificateChain.isCertificateLabel CertificateChain.certificateLabel = true by decide)
    [der]
  rwa [List.flatMap_singleton] at hall

theorem reads_der : Reads der fun c => c.keyInfo == keyInfo := by decide +kernel

/-- What is added: the same key with a NULL. -/
def ownKeyInfo : Octets :=
  [0x30, 0x82, 0x01, 0x22, 0x30, 0x0d] ++ (keyInfo.drop 6).take 11 ++ Der.null ++ keyInfo.drop 17

def modulus : Octets := (keyInfo.drop 30).take 257

def key : PublicKey := .rsa (Octets.toNat modulus) (Octets.toNat [0x01, 0x00, 0x01])

theorem ofKeyInfo?_keyInfo : PublicKey.ofKeyInfo? keyInfo = some key := by decide +kernel

theorem keyInfo_key : key.keyInfo = ownKeyInfo := by
  have hmodulus : Der.naturalContent (Octets.toNat modulus) = modulus := by
    have hhead : modulus = 0 :: modulus.tail := by decide +kernel
    rw [hhead]
    exact Der.naturalContent_toNat (by decide +kernel) (by decide)
  have hexponent : Der.naturalContent (Octets.toNat [0x01, 0x00, 0x01]) = [0x01, 0x00, 0x01] :=
    Der.naturalContent_toNat (by decide) (by decide)
  rw [key, PublicKey.keyInfo, Der.writeNatural, Der.writeNatural, hmodulus, hexponent]
  decide +kernel

theorem parts_pem :
    (CertificateChain.pemParts? pem).map (·.map (·.keyInfo.raw)) = some [keyInfo] := by
  have hpem := CertificateChain.pemParts?_write [der]
  rw [List.flatMap_singleton] at hpem
  rw [pem, hpem]
  decide +kernel

theorem keys_pem :
    (CertificateChain.pemParts? pem).map (·.map TrustAnchors.keyOf?) = some [some ownKeyInfo] := by
  have hkeyOf : TrustAnchors.keyOf? = Cryptography.reencode? ∘ fun p => p.keyInfo.raw := rfl
  have hwritten : Cryptography.reencode? keyInfo = some ownKeyInfo :=
    PublicKey.reencode?_eq_some_iff.2 ⟨key, ofKeyInfo?_keyInfo, keyInfo_key⟩
  obtain ⟨parts, hparts, hraw⟩ := Option.map_eq_some_iff.1 parts_pem
  rw [hparts, Option.map_some, hkeyOf, ← List.map_map, hraw, List.map_singleton, hwritten]

theorem not_isKnownKey_keyInfo (issuer : Issuer) : ¬ TrustAnchors.IsKnownKey issuer keyInfo :=
  TrustAnchors.not_isKnownKey_of_mark (by decide +kernel) issuer

theorem not_isKnownKey_ownKeyInfo (issuer : Issuer) : ¬ TrustAnchors.IsKnownKey issuer ownKeyInfo :=
  TrustAnchors.not_isKnownKey_of_mark (by decide +kernel) issuer

open TrustAnchors

/-- The certificate, as it is read. -/
theorem exists_certificate :
    ∃ c : Certificate, IsCertificateOf pem c ∧ Certificate.ofDer c.der = .ok c ∧
    c.keyInfo = keyInfo := by
  obtain ⟨c, hc⟩ := reads_der.exists_ofDer
  have hder : c.der = der := (Certificate.ofDer_eq_ok_iff.1 hc).2.1
  exact ⟨c, .block all_pem (List.mem_singleton.2 hder), hder ▸ hc,
    beq_iff_eq.1 (reads_der.of_ofDer hc)⟩

theorem offers_pem : (Addition.bundle pem).offers = [ownKeyInfo] := by
  obtain ⟨parts, hparts, hkeys⟩ := Option.map_eq_some_iff.1 keys_pem
  rw [Addition.offers, hparts, Option.map_some, hkeys]
  rfl

theorem addPem_pem : (empty.addPem pem).1 = .ok 1 := by
  obtain ⟨parts, hparts, hkeys⟩ := Option.map_eq_some_iff.1 keys_pem
  exact addPem_singleton empty_known hparts hkeys (empty_added ▸ List.not_mem_nil)
    (not_isKnownKey_ownKeyInfo _)

end AttestedKey.BareRoot

namespace AttestedKey.TrustAnchors

theorem bareRoot_isRootAddition : ∃ c : Certificate, ((after []).addPem BareRoot.pem).1 = .ok 1 ∧
    IsCertificateOf BareRoot.pem c ∧ Certificate.ofDer c.der = .ok c ∧
    IsRootAddition [] BareRoot.pem c := by
  obtain ⟨c, hof, hc, -⟩ := BareRoot.exists_certificate
  exact ⟨c, BareRoot.addPem_pem, hof, hc, addPem_isRootAddition BareRoot.addPem_pem hof hc⟩

/-- The bundle is added, and its root is not recognised: what is recognised are other octets for
the same key. -/
theorem classify_bareRoot : ∃ c : Certificate, (empty.addPem BareRoot.pem).1 = .ok 1 ∧
    IsCertificateOf BareRoot.pem c ∧ Certificate.ofDer c.der = .ok c ∧
    (empty.addPem BareRoot.pem).2.classify c.keyInfo = .unknown ∧
    (empty.addPem BareRoot.pem).2.classify BareRoot.ownKeyInfo = .manufacturer := by
  obtain ⟨c, hof, hc, hkeyInfo⟩ := BareRoot.exists_certificate
  have hoffered : ∀ key, Offered [.bundle BareRoot.pem] key ↔ key = BareRoot.ownKeyInfo := by
    simp [Offered, BareRoot.offers_pem]
  have hne : BareRoot.keyInfo ≠ BareRoot.ownKeyInfo := by decide +kernel
  refine ⟨c, BareRoot.addPem_pem, hof, hc, ?_, ?_⟩
  · rw [hkeyInfo, ← after_bundle, classify_after_iff]
    exact .unknown BareRoot.not_isKnownKey_keyInfo fun h => hne ((hoffered _).1 h)
  · rw [← after_bundle, classify_after_iff]
    exact .added BareRoot.not_isKnownKey_ownKeyInfo ((hoffered _).2 rfl)

end AttestedKey.TrustAnchors
