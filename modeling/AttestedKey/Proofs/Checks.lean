import AttestedKey.Proofs.Walk

/-! The checks on one certificate. `Checked` says in what order they come and what the first that
fails leaves behind; every finding is `Checked`, so status, error and revocation entry of a finding
always go together, and the status tells which check failed. -/

namespace AttestedKey

variable {R : Type} [RevocationLookup R] [Cryptography]

/-- Signature, revocation, then time: the first check that fails gives status and error. -/
inductive Checked (revocation : R) (time : Instant) (c parent : Certificate) :
    CertificateStatus → Option TrustError → Option RevocationEntry → Prop
  | unsigned {x : TrustError} {detail : String} :
      c.verify parent = .error x → x = .signature detail ∨ x = .crypto detail →
      Checked revocation time c parent .sign (some x) none
  | listed {entry : RevocationEntry} {detail : String} :
      c.verify parent = .ok () → RevocationLookup.lookup revocation c.serial = some entry →
      Checked revocation time c parent .revoked (some (.revoked detail)) (some entry)
  | early {detail : String} :
      c.verify parent = .ok () → RevocationLookup.lookup revocation c.serial = none →
      time < c.notBefore →
      Checked revocation time c parent .expired (some (.notYetValid detail)) none
  | late {detail : String} :
      c.verify parent = .ok () → RevocationLookup.lookup revocation c.serial = none →
      ¬ time < c.notBefore → c.notAfter < time →
      Checked revocation time c parent .expired (some (.expired detail)) none
  | passed :
      c.verify parent = .ok () → RevocationLookup.lookup revocation c.serial = none →
      ¬ time < c.notBefore → ¬ c.notAfter < time →
      Checked revocation time c parent .normal none none

theorem Certificate.verify_error {c parent : Certificate} {x : TrustError}
    (h : c.verify parent = .error x) : ∃ detail, x = .signature detail ∨ x = .crypto detail := by
  simp only [verify] at h
  split at h
  · cases h; exact ⟨_, Or.inr rfl⟩
  · split at h
    · split at h
      · cases h
      · cases h; exact ⟨_, Or.inl rfl⟩
      · cases h; exact ⟨_, Or.inl rfl⟩
    · cases h; exact ⟨_, Or.inl rfl⟩

/-- The finding on a certificate is what the checks come to; who its root is changes nothing about
it. -/
theorem checked_finding (c parent : Certificate) (context : TrustContext R) (time : Instant)
    (anchor : Option Issuer) {f : CertificateFinding}
    (hf : f = { c.finding parent context time with anchor := anchor }) :
    Checked context.revocation time c parent f.status f.error? f.revocation? := by
  subst hf
  simp only [CertificateFinding.status, CertificateFinding.error?, CertificateFinding.revocation?,
    Certificate.finding, Certificate.standing]
  cases hv : c.verify parent with
  | error x =>
    obtain ⟨detail, hx⟩ := Certificate.verify_error hv
    exact .unsigned hv hx
  | ok u =>
    cases hl : RevocationLookup.lookup context.revocation c.serial with
    | some entry => exact .listed hv hl
    | none =>
      simp only [Certificate.checkValidity]
      by_cases hb : time < c.notBefore
      · rw [if_pos hb]; exact .early hv hl hb
      · rw [if_neg hb]
        by_cases ha : c.notAfter < time
        · rw [if_pos ha]; exact .late hv hl hb ha
        · rw [if_neg ha]; exact .passed hv hl hb ha

namespace Checked

variable {revocation : R} {time : Instant} {c parent : Certificate} {status : CertificateStatus}
  {error : Option TrustError} {entry : Option RevocationEntry}

theorem ne_unknown (h : Checked revocation time c parent status error entry) :
    status ≠ .unknown := by
  cases h <;> simp

theorem error_eq_none_iff (h : Checked revocation time c parent status error entry) :
    error = none ↔ status = .normal := by
  cases h <;> simp

theorem entry_ne_none_iff (h : Checked revocation time c parent status error entry) :
    entry ≠ none ↔ status = .revoked := by
  cases h <;> simp

/-- Time does not come into it: a status below expired is a failed signature or a listed serial
number. -/
theorem lt_expired_iff (h : Checked revocation time c parent status error entry) :
    status < .expired ↔
      (∃ x, c.verify parent = .error x) ∨
        ∃ e, RevocationLookup.lookup revocation c.serial = some e := by
  cases h with
  | unsigned hv => exact ⟨fun _ => Or.inl ⟨_, hv⟩, fun _ => by decide⟩
  | listed _ hl => exact ⟨fun _ => Or.inr ⟨_, hl⟩, fun _ => by decide⟩
  | early hv hl => simp [hv, hl]; decide
  | late hv hl => simp [hv, hl]; decide
  | passed hv hl => simp [hv, hl]; decide

theorem failed_of_lookup (h : Checked revocation time c parent status error entry)
    {listed : RevocationEntry} (hl : RevocationLookup.lookup revocation c.serial = some listed) :
    (status = .sign ∨ status = .revoked) ∧ ∃ x, error = some x := by
  cases h with
  | unsigned => exact ⟨Or.inl rfl, _, rfl⟩
  | listed => exact ⟨Or.inr rfl, _, rfl⟩
  | early _ hn | late _ hn | passed _ hn => rw [hl] at hn; cases hn

theorem not_revoked_of_lookup (h : Checked revocation time c parent status error entry)
    (hl : RevocationLookup.lookup revocation c.serial = none) (detail : String) :
    error ≠ some (.revoked detail) := by
  cases h with
  | unsigned _ hx => rcases hx with rfl | rfl <;> simp
  | listed _ hs => rw [hl] at hs; cases hs
  | early | late | passed => simp

end Checked

end AttestedKey
