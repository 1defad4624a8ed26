import AttestedKey.Proofs.Checks

/-! An evaluation in full: it fails for want of a certificate only, and else holds one finding for
each certificate of the walk, in order, with the certificate's own data, how the checks against its
predecessor came out, and what its extensions read as. The record of the chain is the deepest
one. -/

namespace AttestedKey

open CertificateChain

theorem CertificateFinding.record_or_decodeError (f : CertificateFinding) :
    (∃ a, f.record? = some a ∧ f.decodeError? = none) ∨
      ∃ x, f.record? = none ∧ f.decodeError? = some x := by
  unfold record? decodeError?
  cases f.attestation with
  | ok a => exact Or.inl ⟨a, rfl, rfl⟩
  | error x => exact Or.inr ⟨x, rfl, rfl⟩

theorem ChainEvaluation.record?_eq_getLast? (e : ChainEvaluation) :
    e.record? = (e.certificates.filterMap CertificateFinding.record?).getLast? := by
  rw [record?, List.getLast?_filterMap]

variable {R : Type} [RevocationLookup R] [Cryptography]

/-- A finding says what there is to say of a certificate below its parent, and no more. -/
structure IsFindingOn (context : TrustContext R) (time : Instant) (c parent : Certificate)
    (f : CertificateFinding) : Prop where
  summary : f.summary = c.summary
  provisioning : f.provisioning = ProvisioningInfo.ofExtensions? c.extensions
  attestation : f.attestation = Attestation.ofExtensions c.extensions
  read : (∃ a, f.record? = some a ∧ f.decodeError? = none) ∨
    ∃ x, f.record? = none ∧ f.decodeError? = some x
  checked : Checked context.revocation time c parent f.status f.error? f.revocation?
  known : f.status ≠ .unknown
  error : f.error? = none ↔ f.status = .normal
  entry : f.revocation? ≠ none ↔ f.status = .revoked

theorem isFindingOn_finding (c parent : Certificate) (context : TrustContext R) (time : Instant)
    (anchor : Option Issuer) {f : CertificateFinding}
    (hf : f = { c.finding parent context time with anchor := anchor }) :
    IsFindingOn context time c parent f := by
  have h := checked_finding c parent context time anchor hf
  refine ⟨?_, ?_, ?_, f.record_or_decodeError, h, h.ne_unknown, h.error_eq_none_iff,
    h.entry_ne_none_iff⟩ <;>
    rw [hf] <;> rfl

/-- What an evaluation of certificates in an order, root first, comes to. -/
structure IsEvaluation (context : TrustContext R) (time : Instant) (order : CertificateChain)
    (e : ChainEvaluation) : Prop where
  nonempty : 0 < e.certificates.length
  fits : e.certificates.length ≤ order.length
  /-- As many certificates are evaluated as the shortest prefix has that ends at one that
  refuses. -/
  walk : IsWalk order (order.take e.certificates.length)
  finding : ∀ (i : Nat) (f : CertificateFinding), e.certificates[i]? = some f →
    ∃ c parent, order[i]? = some c ∧ order[i - 1]? = some parent ∧
      IsFindingOn context time c parent f
  anchor : ∀ (i : Nat) (f : CertificateFinding) (c : Certificate), e.certificates[i]? = some f →
    order[i]? = some c →
      f.anchor = if i = 0 then some (context.anchors.classify c.keyInfo) else none
  record : e.record? = (e.certificates.filterMap CertificateFinding.record?).getLast?
  available : e.revocationAvailable = RevocationLookup.isAvailable context.revocation

theorem CertificateChain.Describes.isEvaluation {context : TrustContext R} {time : Instant}
    {order : CertificateChain} {e : ChainEvaluation} (h : Describes context time order e) :
    IsEvaluation context time order e where
  nonempty := h.nonempty
  fits := h.fits
  walk := h.walk
  finding i f hi := by
    obtain ⟨c, parent, hc, hp, hf⟩ := h.finding hi
    exact ⟨c, parent, hc, hp, isFindingOn_finding c parent context time _ hf⟩
  anchor i f c hi hc := by
    obtain ⟨d, parent, hd, -, rfl⟩ := h.finding hi
    rw [hc] at hd
    cases hd
    rfl
  record := e.record?_eq_getLast?
  available := h.available

/-- An order without certificates is the one thing that cannot be evaluated. -/
theorem evaluate_isEvaluation (chain : CertificateChain) (context : TrustContext R)
    (time : Instant) :
    (rootFirst chain = [] ∧ evaluate chain context time = .error .emptyChain) ∨
      ∃ e, evaluate chain context time = .ok e ∧ IsEvaluation context time (rootFirst chain) e := by
  rcases evaluate_cases chain context time with h | ⟨e, he, hd⟩
  · exact Or.inl h
  · exact Or.inr ⟨e, he, hd.isEvaluation⟩

end AttestedKey
