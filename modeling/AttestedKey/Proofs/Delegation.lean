import AttestedKey.Proofs.Evaluation

/-! Who vouches for what is evaluated. The walk goes past a certificate only if no attestation of
it says that its key attests nothing. That may be because its attestation cannot be read, which the
walk takes for one that is not there. `ReadsAsFar` is the exact condition under which all
certificates above the last do vouch, and `JunkChain` a chain that the checks accept although one
of them does not. -/

namespace AttestedKey

open CertificateChain

namespace Certificate

def CarriesAttestation (c : Certificate) : Prop :=
  c.extensions.get? Extension.keyAttestation ≠ none ∨ c.extensions.get? Extension.entityToken ≠ none

/-- Without an attestation, or with one that reads and says that the key attests others. -/
def Vouches (c : Certificate) : Prop :=
  ¬ c.CarriesAttestation ∨ ∃ a, Attestation.ofExtensions c.extensions = .ok a ∧ a.Delegates

/-- With an attestation that does not read. -/
def Unread (c : Certificate) : Prop :=
  c.CarriesAttestation ∧ ∃ x, Attestation.ofExtensions c.extensions = .error x

theorem Unread.not_vouches {c : Certificate} (h : c.Unread) : ¬ c.Vouches := by
  obtain ⟨hc, x, hx⟩ := h
  rintro (hn | ⟨a, ha, -⟩)
  · exact hn hc
  · rw [hx] at ha
    cases ha

theorem Unread.not_refuses {c : Certificate} (h : c.Unread) : ¬ c.Refuses := by
  obtain ⟨-, x, hx⟩ := h
  rintro ⟨a, ha, -⟩
  rw [hx] at ha
  cases ha

theorem vouches_or_unread {c : Certificate} (h : ¬ c.Refuses) : c.Vouches ∨ c.Unread := by
  unfold Refuses at h
  unfold Vouches Unread
  by_cases hc : c.CarriesAttestation
  · cases ha : Attestation.ofExtensions c.extensions with
    | ok a =>
      left; right
      refine ⟨a, rfl, ?_⟩
      by_contra hn
      exact h ⟨a, ha, hn⟩
    | error x => exact Or.inr ⟨hc, x, rfl⟩
  · exact Or.inl (Or.inl hc)

end Certificate

theorem ChainEvaluation.exists_of_record? {e : ChainEvaluation} {a : Attestation}
    (h : e.record? = some a) :
    ∃ (i : Nat) (f : CertificateFinding), e.certificates[i]? = some f ∧ f.attestation = .ok a := by
  obtain ⟨f, hf, ha⟩ := List.exists_of_findSome?_eq_some h
  obtain ⟨i, hi⟩ := List.mem_iff_getElem?.1 (List.mem_reverse.1 hf)
  refine ⟨i, f, hi, ?_⟩
  unfold CertificateFinding.record? at ha
  cases hr : f.attestation with
  | ok b => rw [hr] at ha; cases ha; rfl
  | error x => rw [hr] at ha; cases ha

/-- The certificates above the last one evaluated all vouch. -/
def ChainEvaluation.VouchedFor (order : CertificateChain) (e : ChainEvaluation) : Prop :=
  ∀ (i : Nat) (c : Certificate), i + 1 < e.certificates.length → order[i]? = some c → c.Vouches

/-- An unread certificate of an order is its last, or has one above it that refuses. -/
def CertificateChain.ReadsAsFar (order : CertificateChain) : Prop :=
  ∀ (i : Nat) (c : Certificate), i + 1 < order.length → order[i]? = some c → c.Unread →
    ∃ (j : Nat) (d : Certificate), j < i ∧ order[j]? = some d ∧ d.Refuses

section

variable {order : CertificateChain} {n : Nat}

theorem IsWalk.vouches_or_unread (h : IsWalk order (order.take n)) (hn : n ≤ order.length) {i : Nat}
    {c : Certificate} (hi : i + 1 < n) (hc : order[i]? = some c) : c.Vouches ∨ c.Unread :=
  Certificate.vouches_or_unread (h.goesOn_getElem? hn hi hc)

/-- Nothing but the end of the order or a refusal above it keeps the walk from going past an unread
certificate. -/
theorem IsWalk.passes_unread (h : IsWalk order (order.take n)) (hn : n ≤ order.length) {i : Nat}
    {c : Certificate} (hi : i + 1 < order.length) (hc : order[i]? = some c) (hu : c.Unread)
    (hr : ∀ (j : Nat) (d : Certificate), j < i → order[j]? = some d → ¬ d.Refuses) (hpos : 0 < n) :
    i + 1 < n := by
  rcases h.ends_getElem? hn with he | ⟨d, hd, hrd⟩
  · omega
  · by_contra hlt
    rcases Nat.lt_or_ge (n - 1) i with hj | hj
    · exact hr _ d hj hd hrd
    · rw [show n - 1 = i by omega, hc] at hd
      cases hd
      exact hu.not_refuses hrd

theorem IsWalk.vouches_iff (h : IsWalk order (order.take n)) (hn : n ≤ order.length)
    (hpos : 0 < n) :
    (∀ (i : Nat) (c : Certificate), i + 1 < n → order[i]? = some c → c.Vouches) ↔
      order.ReadsAsFar := by
  constructor
  · intro hv i c hi hc hu
    by_contra hno
    have hr : ∀ (j : Nat) (d : Certificate), j < i → order[j]? = some d → ¬ d.Refuses :=
      fun j d hj hd hrd => hno ⟨j, d, hj, hd, hrd⟩
    exact hu.not_vouches (hv i c (h.passes_unread hn hi hc hu hr hpos) hc)
  · intro hm i c hi hc
    rcases h.vouches_or_unread hn hi hc with hv | hu
    · exact hv
    · obtain ⟨j, d, hj, hd, hrd⟩ := hm i c (by omega) hc hu
      exact absurd hrd (h.goesOn_getElem? hn (by omega) hd)

end

/-- What an evaluation says about the keys above its last certificate, and where its record comes
from. -/
structure IsDelegated (order : CertificateChain) (e : ChainEvaluation) : Prop where
  above : ∀ (i : Nat) (c : Certificate), i + 1 < e.certificates.length → order[i]? = some c →
    c.Vouches ∨ c.Unread
  vouchedFor : e.VouchedFor order ↔ order.ReadsAsFar
  record : ∀ a, e.record? = some a →
    ∃ (i : Nat) (c : Certificate), i < e.certificates.length ∧ order[i]? = some c ∧
      Attestation.ofExtensions c.extensions = .ok a

theorem CertificateChain.Describes.isDelegated {R : Type} [RevocationLookup R] [Cryptography]
    {context : TrustContext R} {time : Instant} {order : CertificateChain} {e : ChainEvaluation}
    (h : Describes context time order e) : IsDelegated order e where
  above _ _ hi hc := h.walk.vouches_or_unread h.fits hi hc
  vouchedFor := h.walk.vouches_iff h.fits h.nonempty
  record a ha := by
    obtain ⟨i, f, hi, hf⟩ := e.exists_of_record? ha
    obtain ⟨c, parent, hc, -, rfl⟩ := h.finding hi
    exact ⟨i, c, (List.getElem?_eq_some_iff.1 hi).1, hc, hf⟩

/-- The certificates above the last vouch exactly if those that do not read come after a refusal or
last. -/
theorem evaluate_isDelegated {R : Type} [RevocationLookup R] [Cryptography]
    (chain : CertificateChain) (context : TrustContext R) (time : Instant) :
    (rootFirst chain = [] ∧ evaluate chain context time = .error .emptyChain) ∨
      ∃ e, evaluate chain context time = .ok e ∧ IsDelegated (rootFirst chain) e := by
  rcases evaluate_cases chain context time with h | ⟨e, he, hd⟩
  · exact Or.inl h
  · exact Or.inr ⟨e, he, hd.isDelegated⟩

def Reads (der : Octets) (p : Certificate → Bool) : Prop :=
  (Certificate.ofDer der).toOption.any p = true

instance (der : Octets) (p : Certificate → Bool) : Decidable (Reads der p) :=
  inferInstanceAs (Decidable (_ = true))

theorem Reads.exists_ofDer {der : Octets} {p : Certificate → Bool} (h : Reads der p) :
    ∃ c, Certificate.ofDer der = .ok c := by
  unfold Reads at h
  cases hc : Certificate.ofDer der with
  | ok c => exact ⟨c, rfl⟩
  | error x => rw [hc] at h; cases h

theorem Reads.of_ofDer {der : Octets} {p : Certificate → Bool} (h : Reads der p) {c : Certificate}
    (hc : Certificate.ofDer der = .ok c) : p c = true := by
  unfold Reads at h
  rw [hc] at h
  exact h

namespace JunkChain

def root : Octets :=
  .ofNat 40 0x3082017230820118a003020102020101300a06082a8648ce3d040302303731153013060355040a0c ++
  .ofNat 40 0x0c4578616d706c6520436f7270311e301c06035504030c1554657374204174746573746174696f6e ++
  .ofNat 40 0x20526f6f743020170d3234303130313030303030305a180f32303939313233313030303030305a30 ++
  .ofNat 40 0x3731153013060355040a0c0c4578616d706c6520436f7270311e301c06035504030c155465737420 ++
  .ofNat 40 0x4174746573746174696f6e20526f6f743059301306072a8648ce3d020106082a8648ce3d03010703 ++
  .ofNat 40 0x4200046a2643afe77b254e310209d19fc113a3c5b16ad4968111cb77675f0d3df9eef0e5377ffebb ++
  .ofNat 40 0xa5517554cce2d64d677d0835a1439cc32a0b81f2959b796b23c103a3133011300f0603551d130101 ++
  .ofNat 40 0xff040530030101ff300a06082a8648ce3d040302034800304502200c0e9d470abb9605561bbd6277 ++
  .ofNat 40 0x30d7fc66c7ec3e722508a4547b4f6baff8db5e022100f15ba4a40857f564793a6af2cd2ba39a2bfc ++
  .ofNat 14 0x7f8ca7c0de53241020b70b0ec87d

/-- Its intermediate, whose key attestation is the four letters of "junk". -/
def intermediate : Octets :=
  .ofNat 40 0x3082019030820135a00302010202026000300a06082a8648ce3d040302303731153013060355040a ++
  .ofNat 40 0x0c0c4578616d706c6520436f7270311e301c06035504030c1554657374204174746573746174696f ++
  .ofNat 40 0x6e20526f6f743020170d3234303130313030303030305a180f32303939313233313030303030305a ++
  .ofNat 40 0x303f31153013060355040a0c0c4578616d706c6520436f72703126302406035504030c1d54657374 ++
  .ofNat 40 0x204174746573746174696f6e20496e7465726d6564696174653059301306072a8648ce3d02010608 ++
  .ofNat 40 0x2a8648ce3d03010703420004693a8b6e49e4e856f54c21d893b636957787b4c5ea301726edcfe624 ++
  .ofNat 40 0xf84a610b92b96c48d4468f46a6976054d877e8e17eda37ba64dd239b2dd293a6a02d918ea3273025 ++
  .ofNat 40 0x300f0603551d130101ff040530030101ff3012060a2b06010401d67902011104046a756e6b300a06 ++
  .ofNat 40 0x082a8648ce3d0403020349003046022100a8f527faba00a51dd5417827b691e39c62e9791fbf6fda ++
  .ofNat 40 0x757eb6267e6a4b2a82022100f437f5c0ea2f4cfde61ee3b2284d485ed45a86b0f5c832a208768aeb ++
  .ofNat 4 0x3b077033

def leaf : Octets :=
  .ofNat 40 0x308202973082023da00302010202021000300a06082a8648ce3d040302303f31153013060355040a ++
  .ofNat 40 0x0c0c4578616d706c6520436f72703126302406035504030c1d54657374204174746573746174696f ++
  .ofNat 40 0x6e20496e7465726d6564696174653020170d3234303130313030303030305a180f32303939313233 ++
  .ofNat 40 0x313030303030305a301f311d301b06035504030c14416e64726f6964204b657973746f7265204b65 ++
  .ofNat 40 0x793059301306072a8648ce3d020106082a8648ce3d030107034200042b08c055671821d3e77f4abd ++
  .ofNat 40 0xee2994eef29ac2892a88834dd695157588fba84996bdc159932eeddabe047e08bb820b8f7ba76916 ++
  .ofNat 40 0xd22dcc439e31c34ed45d19a5a382014530820141300e0603551d0f0101ff0404030207803082012d ++
  .ofNat 40 0x060a2b06010401d6790201110482011d30820119020200c80a0101020200c80a0101040e74657374 ++
  .ofNat 40 0x2d6368616c6c656e676504003050bf853d080206018cc251f400bf854540043e303c31163014040f ++
  .ofNat 40 0x636f6d2e6578616d706c652e61707002012a31220420333333333333333333333333333333333333 ++
  .ofNat 40 0x33333333333333333333333333333081a4a1083106020102020103a203020103a30402020100a505 ++
  .ofNat 40 0x3103020104aa03020101bf8377020500bf853e03020100bf85404c304a0420111111111111111111 ++
  .ofNat 40 0x11111111111111111111111111111111111111111111110101ff0a01000420222222222222222222 ++
  .ofNat 40 0x2222222222222222222222222222222222222222222222bf85410502030222e0bf85420502030316 ++
  .ofNat 40 0xa1bf854e0602040134d6e9bf854f0602040134d6e9300a06082a8648ce3d04030203480030450221 ++
  .ofNat 40 0x00d7760f3cda1d4cc470d2f20dd78e0f4c9ae2fd400181f6ada784ea2f42eb2939022067f16a52db ++
  .ofNat 27 0x10bb7de18f8ea2453300f4708e87d503eeb8041f33b53b538fa5e6

def time : Instant := ⟨1735689600000, by decide⟩

def isNormal (c parent : Certificate) : Bool :=
  (c.standing parent RevocationStore.empty time).status == .normal

theorem reads_root : Reads root fun c =>
    !c.endsWalk && isNormal c c := by
  decide +kernel

theorem reads_intermediate : Reads intermediate fun c =>
    !c.endsWalk && (c.extensions.get? Extension.keyAttestation).isSome &&
      !(Attestation.ofExtensions c.extensions).isOk &&
      Reads root fun p => c.isIssuedBy p && isNormal c p := by
  decide +kernel

theorem reads_leaf : Reads leaf fun c =>
    (Attestation.ofExtensions c.extensions).isOk &&
      Reads intermediate fun p => c.isIssuedBy p && isNormal c p := by
  decide +kernel

end JunkChain

/-- Every check comes out well, and the record is that of a leaf below a key that nothing readable
lets attest. -/
theorem junk_vouches :
    ∃ (leaf intermediate root : Certificate) (e : ChainEvaluation),
      Certificate.ofDer JunkChain.leaf = .ok leaf ∧
      Certificate.ofDer JunkChain.intermediate = .ok intermediate ∧
      Certificate.ofDer JunkChain.root = .ok root ∧
      evaluate [leaf, intermediate, root]
        { revocation := RevocationStore.empty,
          anchors := { TrustAnchors.empty with added := [root.keyInfo] } } JunkChain.time = .ok e ∧
      rootFirst [leaf, intermediate, root] = [root, intermediate, leaf] ∧
      e.certificates.map CertificateFinding.status = [.normal, .normal, .normal] ∧
      (∃ a, e.record? = some a ∧ Attestation.ofExtensions leaf.extensions = .ok a) ∧
      intermediate.Unread ∧
      ¬ e.VouchedFor (rootFirst [leaf, intermediate, root]) := by
  obtain ⟨root, hroot⟩ := JunkChain.reads_root.exists_ofDer
  obtain ⟨mid, hmid⟩ := JunkChain.reads_intermediate.exists_ofDer
  obtain ⟨leaf, hleaf⟩ := JunkChain.reads_leaf.exists_ofDer
  have hr := JunkChain.reads_root.of_ofDer hroot
  have hm := JunkChain.reads_intermediate.of_ofDer hmid
  have hl := JunkChain.reads_leaf.of_ofDer hleaf
  simp only [Bool.and_eq_true, Bool.not_eq_true', decide_eq_true_eq] at hr hm hl
  obtain ⟨hrw, hrn⟩ := hr
  obtain ⟨⟨⟨hmw, hme⟩, hma⟩, hmr⟩ := hm
  obtain ⟨hla, hlm⟩ := hl
  have hmr := hmr.of_ofDer hroot
  have hlm := hlm.of_ofDer hmid
  simp only [Bool.and_eq_true] at hmr hlm
  have horder : rootFirst [leaf, mid, root] = [root, mid, leaf] := by
    simp [rootFirst, isLeafFirst, hmr.1, hlm.1]
  have hwalk : (rootFirst [leaf, mid, root]).walked = [root, mid, leaf] := by
    rw [horder]
    simp [walked, hrw, hmw]
  let anchors : TrustAnchors := { TrustAnchors.empty with added := [root.keyInfo] }
  have he := evaluate_eq hwalk ⟨RevocationStore.empty, anchors⟩ JunkChain.time
  have hunread : mid.Unread := by
    refine ⟨Or.inl fun hn => ?_, ?_⟩
    · rw [hn] at hme
      cases hme
    · cases hx : Attestation.ofExtensions mid.extensions with
      | ok a => rw [hx] at hma; cases hma
      | error x => exact ⟨x, rfl⟩
  refine ⟨leaf, mid, root, _, hleaf, hmid, hroot, he, horder, ?_, ?_, hunread, ?_⟩
  · simp only [JunkChain.isNormal, beq_iff_eq] at hrn hmr hlm
    simp [findings, CertificateFinding.status, Certificate.finding, hrn, hmr.2, hlm.2]
  · cases ha : Attestation.ofExtensions leaf.extensions with
    | ok a =>
      refine ⟨a, ?_, rfl⟩
      simp only [ChainEvaluation.record?, findings, Certificate.finding, ha]
      rfl
    | error x => rw [ha] at hla; cases hla
  · intro hv
    rw [horder] at hv
    exact hunread.not_vouches (hv 1 mid (by simp [findings]) rfl)

end AttestedKey
