import AttestedKey.Proofs.StatusList
import AttestedKey.Proofs.Verdict

/-! Revocation from the status list to the verdict. A certificate whose serial number the last
document loaded lists, in whatever spelling, does not get past the check, and its chain fails; one
that is not listed is never taken for revoked. -/

namespace AttestedKey

open CertificateChain RevocationStore

/-- The document loaded lists the number, if there is a document. -/
def Listed (loaded : Option RevocationDocument) (n : Nat) : Prop := ∃ d, loaded = some d ∧ d.Lists n

/-- The finding on a certificate agrees with the document loaded. -/
structure HeedsList (loaded : Option RevocationDocument) (c : Certificate)
    (f : CertificateFinding) : Prop where
  listed : Listed loaded c.fields.serialNumber → (f.status = .sign ∨ f.status = .revoked) ∧
    ∃ x, f.error? = some x
  unlisted : ¬ Listed loaded c.fields.serialNumber → ∀ detail, f.error? ≠ some (.revoked detail)

/-- What calls on the revocation store come to in an evaluation of an order. -/
structure IsRevocationChecked (calls : List Call) (order : CertificateChain) (e : ChainEvaluation) :
    Prop where
  available : e.revocationAvailable = true ↔ ∃ c ∈ calls, ∃ d, c.document? = some d
  finding : ∀ (i : Nat) (f : CertificateFinding), e.certificates[i]? = some f →
    ∃ c, order[i]? = some c ∧ HeedsList (lastLoaded? calls) c f ∧
      (Listed (lastLoaded? calls) c.fields.serialNumber → e.issuer = .failed)

theorem lookup_serial (calls : List Call) (c : Certificate) :
    (∃ entry, RevocationLookup.lookup (after calls) c.serial = some entry) ↔
      Listed (lastLoaded? calls) c.fields.serialNumber :=
  lookup_after calls c.fields.serialNumber

theorem Checked.heedsList [Cryptography] {calls : List Call} {time : Instant}
    {c parent : Certificate} {f : CertificateFinding}
    (h : Checked (after calls) time c parent f.status f.error? f.revocation?) :
    HeedsList (lastLoaded? calls) c f where
  listed hl := by
    obtain ⟨entry, he⟩ := (lookup_serial calls c).2 hl
    exact h.failed_of_lookup he
  unlisted hn detail := by
    refine h.not_revoked_of_lookup ?_ detail
    rw [Option.eq_none_iff_forall_not_mem]
    exact fun entry he => hn ((lookup_serial calls c).1 ⟨entry, he⟩)

theorem isRevocationChecked_of_describes [Cryptography] {calls : List Call} {anchors : TrustAnchors}
    {time : Instant} {order : CertificateChain} {e : ChainEvaluation}
    (h : Describes ⟨after calls, anchors⟩ time order e) : IsRevocationChecked calls order e where
  available := by
    rw [h.available]
    exact isAvailable_after calls
  finding i f hi := by
    obtain ⟨c, parent, hc, hp, hf⟩ := h.finding hi
    refine ⟨c, hc, (checked_finding c parent _ time _ hf).heedsList, fun hl => ?_⟩
    have hfails : Fails (after calls) order e.certificates.length :=
      ⟨i, c, parent, (List.getElem?_eq_some_iff.1 hi).1, hc, hp,
        Or.inr ((lookup_serial calls c).2 hl)⟩
    obtain ⟨root, -, hi⟩ := h.issuer_cases
    rcases hi with ⟨-, he⟩ | ⟨hn, -⟩
    · exact he
    · exact absurd hfails hn

/-- Only spellings of the serial number matter, and of the documents only the last one loaded. -/
theorem evaluate_isRevocationChecked [Cryptography] (calls : List Call) (anchors : TrustAnchors)
    (chain : CertificateChain) (time : Instant) :
    (rootFirst chain = [] ∧ evaluate chain ⟨after calls, anchors⟩ time = .error .emptyChain) ∨
      ∃ e, evaluate chain ⟨after calls, anchors⟩ time = .ok e ∧
        IsRevocationChecked calls (rootFirst chain) e := by
  rcases evaluate_cases chain ⟨after calls, anchors⟩ time with h | ⟨e, he, hd⟩
  · exact Or.inl h
  · exact Or.inr ⟨e, he, isRevocationChecked_of_describes hd⟩

end AttestedKey
