import AttestedKey.Proofs.Delegation
import AttestedKey.Proofs.Evaluation
import AttestedKey.Proofs.StatusList
import AttestedKey.Proofs.Verdict

/-! One chain held against two sets of trust data. Where a walk ends is a matter of extensions
alone, so two evaluations of a chain find out about the same certificates and read the same from
them, whatever the anchors, the revocation stores and the times (`Describes.forall₂`). Of two
stores the one that lists more never makes a certificate stand higher, and leaves the verdict as it
is or makes it a failure. -/

namespace AttestedKey

open CertificateChain

/-- A finding is on a certificate: it passes on the certificate's own data and what its extensions
read as. -/
structure IsAbout (c : Certificate) (f : CertificateFinding) : Prop where
  summary : f.summary = c.summary
  attestation : f.attestation = Attestation.ofExtensions c.extensions
  provisioning : f.provisioning = ProvisioningInfo.ofExtensions? c.extensions

/-- Two findings that differ at most in how the checks came out and in whose root it is. -/
structure TellAlike (f g : CertificateFinding) : Prop where
  summary : f.summary = g.summary
  record : f.record? = g.record?
  decodeError : f.decodeError? = g.decodeError?
  provisioning : f.provisioning = g.provisioning

/-- Two evaluations that walk the same certificates of an order and read the same from them. -/
structure WalkAlike (order : CertificateChain) (e₁ e₂ : ChainEvaluation) : Prop where
  walk : ∃ walk, IsWalk order walk ∧ List.Forall₂ IsAbout walk e₁.certificates ∧
    List.Forall₂ IsAbout walk e₂.certificates
  findings : List.Forall₂ TellAlike e₁.certificates e₂.certificates
  record : e₁.record? = e₂.record?
  rootOfTrust : e₁.rootOfTrust? = e₂.rootOfTrust?
  softwareLevel : e₁.isSoftwareLevel = e₂.isSoftwareLevel

/-- The second evaluation trusts no certificate more than the first, and the chain as much or not
at all. -/
structure TrustsNoMore (e₁ e₂ : ChainEvaluation) : Prop where
  statuses : List.Forall₂ (fun f g => g.status ≤ f.status) e₁.certificates e₂.certificates
  issuer : e₂.issuer = e₁.issuer ∨ e₂.issuer = .failed

theorem filterMap_record?_of_tellAlike {fs gs : List CertificateFinding}
    (h : List.Forall₂ TellAlike fs gs) :
    fs.filterMap CertificateFinding.record? = gs.filterMap CertificateFinding.record? := by
  induction h with
  | nil => rfl
  | cons hfg _ ih => rw [List.filterMap_cons, List.filterMap_cons, hfg.record, ih]

section

variable {R S : Type} [RevocationLookup R] [RevocationLookup S] [Cryptography]

/-- Every serial number that the first store lists is listed by the second, with whatever entry. -/
def ListsNoLess (first : R) (second : S) : Prop :=
  ∀ serial, (RevocationLookup.lookup first serial).isSome →
    (RevocationLookup.lookup second serial).isSome

theorem Certificate.status_standing_le {first : R} {second : S} (h : ListsNoLess first second)
    (c parent : Certificate) (time : Instant) :
    (c.standing parent second time).status ≤ (c.standing parent first time).status := by
  unfold standing
  cases c.verify parent with
  | error x => exact Nat.le_refl _
  | ok u =>
    cases hs : RevocationLookup.lookup second c.serial with
    | none =>
      -- what the second store does not list the first does not either
      have hf : RevocationLookup.lookup first c.serial = none := by
        cases hf : RevocationLookup.lookup first c.serial with
        | none => rfl
        | some entry =>
          have := h c.serial
          simp [hf, hs] at this
      rw [hf]
      exact Nat.le_refl _
    | some entry =>
      cases RevocationLookup.lookup first c.serial with
      | some other => exact Nat.le_refl _
      | none =>
        cases c.checkValidity time with
        | error x => exact (by decide : CertificateStatus.revoked ≤ .expired)
        | ok u => exact (by decide : CertificateStatus.revoked ≤ .normal)

variable {context₁ : TrustContext R} {context₂ : TrustContext S} {time time₁ time₂ : Instant}
  {order : CertificateChain} {e e₁ e₂ : ChainEvaluation}

namespace CertificateChain.Describes

theorem order_ne_nil (h : Describes context₁ time order e) : order ≠ [] := by
  rintro rfl
  exact absurd h.nonempty (Nat.not_lt.2 h.fits)

/-- Of two walks over one order neither goes on where the other ends. -/
theorem length_le (h₁ : Describes context₁ time₁ order e₁)
    (h₂ : Describes context₂ time₂ order e₂) : e₁.certificates.length ≤ e₂.certificates.length := by
  rcases h₂.walk.ends_getElem? h₂.fits with hall | ⟨c, hc, hr⟩
  · rw [hall]
    exact h₁.fits
  · apply Nat.le_of_not_lt
    intro hlt
    have := h₂.nonempty
    exact h₁.walk.goesOn_getElem? h₁.fits (by omega) hc hr

theorem length_eq (h₁ : Describes context₁ time₁ order e₁)
    (h₂ : Describes context₂ time₂ order e₂) : e₁.certificates.length = e₂.certificates.length :=
  Nat.le_antisymm (h₁.length_le h₂) (h₂.length_le h₁)

/-- Two evaluations of an order relate as the findings on one certificate below one parent do. -/
theorem forall₂ (h₁ : Describes context₁ time₁ order e₁) (h₂ : Describes context₂ time₂ order e₂)
    {P : CertificateFinding → CertificateFinding → Prop}
    (hP : ∀ (c parent : Certificate) (a₁ a₂ : Option Issuer),
      P { c.finding parent context₁ time₁ with anchor := a₁ }
      { c.finding parent context₂ time₂ with anchor := a₂ }) :
    List.Forall₂ P e₁.certificates e₂.certificates := by
  rw [List.forall₂_iff_get]
  refine ⟨h₁.length_eq h₂, ?_⟩
  intro i hi₁ hi₂
  obtain ⟨c, parent, hc, hp, hf⟩ := h₁.finding (List.getElem?_eq_getElem hi₁)
  obtain ⟨d, other, hd, ho, hg⟩ := h₂.finding (List.getElem?_eq_getElem hi₂)
  cases hc.symm.trans hd
  cases hp.symm.trans ho
  rw [List.get_eq_getElem, List.get_eq_getElem, hf, hg]
  exact hP c parent _ _

theorem forall₂_isAbout (h : Describes context₁ time order e) :
    List.Forall₂ IsAbout (order.take e.certificates.length) e.certificates := by
  have hfits := h.fits
  rw [List.forall₂_iff_get]
  refine ⟨by rw [List.length_take]; omega, ?_⟩
  intro i hi hi'
  obtain ⟨c, parent, hc, -, hf⟩ := h.finding (List.getElem?_eq_getElem hi')
  have htake : (order.take e.certificates.length)[i] = c := by
    rw [List.getElem_take]
    exact (List.getElem?_eq_some_iff.1 hc).2
  rw [List.get_eq_getElem, List.get_eq_getElem, htake, hf]
  exact ⟨rfl, rfl, rfl⟩

theorem walkAlike (h₁ : Describes context₁ time₁ order e₁)
    (h₂ : Describes context₂ time₂ order e₂) : WalkAlike order e₁ e₂ := by
  have hfindings : List.Forall₂ TellAlike e₁.certificates e₂.certificates :=
    h₁.forall₂ h₂ fun _ _ _ _ => ⟨rfl, rfl, rfl, rfl⟩
  have hrecord : e₁.record? = e₂.record? := by
    rw [e₁.record?_eq_getLast?, e₂.record?_eq_getLast?, filterMap_record?_of_tellAlike hfindings]
  refine ⟨⟨_, h₁.walk, h₁.forall₂_isAbout, ?_⟩, hfindings, hrecord, ?_, ?_⟩
  · rw [h₁.length_eq h₂]
    exact h₂.forall₂_isAbout
  · rw [ChainEvaluation.rootOfTrust?, ChainEvaluation.rootOfTrust?, hrecord]
  · rw [ChainEvaluation.isSoftwareLevel, ChainEvaluation.isSoftwareLevel, hrecord]

theorem fails_of_listsNoLess {n : Nat} (h : ListsNoLess context₁.revocation context₂.revocation)
    (hf : Fails context₁.revocation order n) : Fails context₂.revocation order n := by
  obtain ⟨i, c, parent, hi, hc, hp, hx | ⟨entry, hentry⟩⟩ := hf
  · exact ⟨i, c, parent, hi, hc, hp, Or.inl hx⟩
  · have hlisted := h c.serial (by rw [hentry]; rfl)
    exact ⟨i, c, parent, hi, hc, hp, Or.inr (Option.isSome_iff_exists.1 hlisted)⟩

theorem trustsNoMore (h₁ : Describes context₁ time order e₁) (h₂ : Describes context₂ time order e₂)
    (ha : context₁.anchors = context₂.anchors)
    (hl : ListsNoLess context₁.revocation context₂.revocation) : TrustsNoMore e₁ e₂ where
  statuses := h₁.forall₂ h₂ fun c parent _ _ => c.status_standing_le hl parent time
  issuer := by
    obtain ⟨root, hroot, hi₁⟩ := h₁.issuer_cases
    obtain ⟨other, hother, hi₂⟩ := h₂.issuer_cases
    cases hroot.symm.trans hother
    rw [h₁.length_eq h₂, ha] at hi₁
    rcases hi₂ with ⟨-, hfailed⟩ | ⟨hn₂, hi₂⟩
    · exact Or.inr hfailed
    · left
      rcases hi₁ with ⟨hf₁, -⟩ | ⟨-, hi₁⟩
      · exact absurd (fails_of_listsNoLess hl hf₁) hn₂
      · rcases hi₁ with ⟨hg, hr, he₁⟩ | ⟨hr, he₁⟩
        · rcases hi₂ with ⟨-, -, he₂⟩ | ⟨hr₂, -⟩
          · rw [he₁, he₂]
          · exact absurd hr (hr₂ hg)
        · rcases hi₂ with ⟨hg, hr₂, -⟩ | ⟨-, he₂⟩
          · exact absurd hr₂ (hr hg)
          · rw [he₁, he₂]

end CertificateChain.Describes

/-- Trust data decides about standing only, and a store that lists more only for the worse. -/
theorem evaluate_twice (chain : CertificateChain) (context₁ : TrustContext R)
    (context₂ : TrustContext S) (time₁ time₂ : Instant) :
    (rootFirst chain = [] ∧ evaluate chain context₁ time₁ = .error .emptyChain ∧
        evaluate chain context₂ time₂ = .error .emptyChain) ∨
      ∃ e₁ e₂, evaluate chain context₁ time₁ = .ok e₁ ∧ evaluate chain context₂ time₂ = .ok e₂ ∧
        WalkAlike (rootFirst chain) e₁ e₂ ∧
        (time₁ = time₂ → context₁.anchors = context₂.anchors →
          ListsNoLess context₁.revocation context₂.revocation → TrustsNoMore e₁ e₂) := by
  rcases evaluate_cases chain context₁ time₁ with ⟨hn, he₁⟩ | ⟨e₁, he₁, h₁⟩
  · rcases evaluate_cases chain context₂ time₂ with ⟨-, he₂⟩ | ⟨e₂, -, h₂⟩
    · exact Or.inl ⟨hn, he₁, he₂⟩
    · exact absurd hn h₂.order_ne_nil
  · rcases evaluate_cases chain context₂ time₂ with ⟨hn, -⟩ | ⟨e₂, he₂, h₂⟩
    · exact absurd hn h₁.order_ne_nil
    · right
      refine ⟨e₁, e₂, he₁, he₂, h₁.walkAlike h₂, ?_⟩
      rintro rfl ha hl
      exact h₁.trustsNoMore h₂ ha hl

end

theorem JunkChain.reads_serial : Reads JunkChain.root fun c => c.fields.serialNumber == 1 := by
  decide +kernel

def JunkChain.listing : RevocationStore := .ofDocument ⟨[(SerialKey.spelled 1, {})]⟩

/-- The root alone stands at normal while nothing is listed, and at revoked once its serial number
is. -/
theorem evaluate_twice_root :
    ∃ (root : Certificate) (e₁ e₂ : ChainEvaluation), Certificate.ofDer JunkChain.root = .ok root ∧
      evaluate [root] { revocation := RevocationStore.empty } JunkChain.time = .ok e₁ ∧
      evaluate [root] { revocation := JunkChain.listing } JunkChain.time = .ok e₂ ∧
      ListsNoLess RevocationStore.empty JunkChain.listing ∧ TrustsNoMore e₁ e₂ ∧
      e₁.certificates.map CertificateFinding.status = [.normal] ∧
      e₂.certificates.map CertificateFinding.status = [.revoked] := by
  obtain ⟨root, hroot⟩ := JunkChain.reads_root.exists_ofDer
  have hr := JunkChain.reads_root.of_ofDer hroot
  have hs := JunkChain.reads_serial.of_ofDer hroot
  simp only [Bool.and_eq_true, JunkChain.isNormal, beq_iff_eq] at hr hs
  have hwalk : (rootFirst [root]).walked = [root] := by
    simp [rootFirst, isLeafFirst, walked]
  have hlists : ListsNoLess RevocationStore.empty JunkChain.listing := by
    intro serial h
    cases h
  have hverify : root.verify root = .ok () := by
    cases hx : root.verify root with
    | ok u => rfl
    | error x => simp [Certificate.standing, hx, Standing.status] at hr
  have hlisted : ∃ entry, RevocationLookup.lookup JunkChain.listing root.serial = some entry := by
    refine (RevocationStore.lookup_ofDocument _ root.fields.serialNumber).2 ?_
    rw [hs]
    exact ⟨_, List.mem_singleton_self _, SerialKey.denotes_spelled 1⟩
  obtain ⟨entry, hentry⟩ := hlisted
  have hrevoked : (root.standing root JunkChain.listing JunkChain.time).status = .revoked := by
    rw [Certificate.standing, hverify, hentry]
    rfl
  have he₁ := evaluate_eq hwalk { revocation := RevocationStore.empty } JunkChain.time
  have he₂ := evaluate_eq hwalk { revocation := JunkChain.listing } JunkChain.time
  rcases evaluate_twice [root] { revocation := RevocationStore.empty }
    { revocation := JunkChain.listing }
    JunkChain.time JunkChain.time with ⟨-, hno, -⟩ | ⟨e₁, e₂, h₁, h₂, -, hless⟩
  · rw [he₁] at hno
    cases hno
  · have hless := hless rfl rfl hlists
    rw [he₁] at h₁
    rw [he₂] at h₂
    cases h₁
    cases h₂
    exact ⟨root, _, _, hroot, he₁, he₂, hlists, hless, congrArg (fun s => [s]) hr.2,
      congrArg (fun s => [s]) hrevoked⟩

end AttestedKey
