import AttestedKey.Proofs.Anchors
import AttestedKey.Proofs.Checks

/-! The verdict on a chain. It comes from three things: whether a check other than that of time
failed on a certificate evaluated, whose key the root has after any additions of keys, and whether
the first certificate below the root that Google does not hold itself was provisioned. `IsVerdict`
has the exact condition for each issuer. -/

namespace AttestedKey

open CertificateChain TrustAnchors

namespace Certificate

/-- The subject has the name of Google in it. -/
def NamesGoogle (c : Certificate) : Prop := "Google LLC".toList <:+: c.subject.toList

def IsProvisioned (c : Certificate) : Prop :=
  ∃ x info, c.extensions.get? Extension.provisioningInfo = some x ∧
    ProvisioningInfo.decode x.value = .ok info

theorem isProvisioned_iff (c : Certificate) :
    (ProvisioningInfo.ofExtensions? c.extensions).isSome = true ↔ c.IsProvisioned := by
  unfold ProvisioningInfo.ofExtensions? IsProvisioned
  cases c.extensions.get? Extension.provisioningInfo with
  | none => simp
  | some x => cases hx : ProvisioningInfo.decode x.value <;> simp [hx, Except.toOption]

end Certificate

namespace ChainEvaluation

theorem occursIn_iff (part text : List Char) : occursIn part text = true ↔ part <:+: text := by
  induction text with
  | nil => simp [occursIn]
  | cons c cs ih =>
    rw [occursIn, Bool.or_eq_true, List.isPrefixOf_iff_prefix, ih, List.infix_cons_iff]

theorem isRemote_iff (below : List CertificateFinding) :
    isRemote below = true ↔ ∃ (i : Nat) (f : CertificateFinding), below[i]? = some f ∧
      isGoogleOwn f = false ∧ f.provisioning.isSome = true ∧
      ∀ (j : Nat) (g : CertificateFinding), j < i → below[j]? = some g → isGoogleOwn g = true := by
  simp only [isRemote, Option.any_eq_true, List.find?_eq_some_iff_getElem, Bool.not_eq_true',
    Bool.not_eq_false']
  constructor
  · rintro ⟨f, ⟨hf, i, hi, rfl, hb⟩, hp⟩
    refine ⟨i, _, List.getElem?_eq_getElem hi, hf, hp, fun j g hj hg => ?_⟩
    obtain ⟨hlt, rfl⟩ := List.getElem?_eq_some_iff.1 hg
    exact hb j hj
  · rintro ⟨i, f, hi, hf, hp, hb⟩
    obtain ⟨hlt, he⟩ := List.getElem?_eq_some_iff.1 hi
    exact ⟨f, ⟨hf, i, hlt, he, fun j hj => hb j _ hj (List.getElem?_eq_getElem (by omega))⟩, hp⟩

/-- A failed check comes first; then only a Google root makes it worth looking below. -/
theorem issuerOf_cases {root : CertificateFinding} (below : List CertificateFinding)
    {anchor : Issuer} (ha : root.anchor = some anchor) :
    ((∃ f ∈ root :: below, f.status < .expired) ∧ issuerOf (root :: below) = .failed) ∨
      (¬ (∃ f ∈ root :: below, f.status < .expired) ∧ issuerOf (root :: below) =
        if anchor = .google ∧ isRemote below = true then .googleRemote else anchor) := by
  have hany : ((root :: below).any fun f => f.status < .expired) = true ↔
      ∃ f ∈ root :: below, f.status < .expired := by
    simp only [List.any_eq_true, decide_eq_true_eq]
  rw [issuerOf]
  by_cases h : ∃ f ∈ root :: below, f.status < .expired
  · exact Or.inl ⟨h, if_pos (hany.2 h)⟩
  · right
    refine ⟨h, ?_⟩
    rw [if_neg fun hf => h (hany.1 hf), ha]
    simp only [Option.getD_some, Bool.and_eq_true, beq_iff_eq]

end ChainEvaluation

/-- Of the first certificates of an order, the first below the root whose subject does not name
Google is provisioned. -/
def Remote (order : CertificateChain) (n : Nat) : Prop :=
  ∃ (i : Nat) (c : Certificate), 0 < i ∧ i < n ∧ order[i]? = some c ∧ ¬ c.NamesGoogle ∧
    c.IsProvisioned ∧
    ∀ (j : Nat) (d : Certificate), 0 < j → j < i → order[j]? = some d → d.NamesGoogle

variable {R : Type} [RevocationLookup R] [Cryptography]

/-- Some of the first certificates of an order fails its signature check against the one before it,
the root against itself, or is listed. -/
def Fails (revocation : R) (order : CertificateChain) (n : Nat) : Prop :=
  ∃ (i : Nat) (c parent : Certificate), i < n ∧ order[i]? = some c ∧ order[i - 1]? = some parent ∧
    ((∃ x, c.verify parent = .error x) ∨ ∃ entry,
      RevocationLookup.lookup revocation c.serial = some entry)

section

variable {context : TrustContext R} {time : Instant} {order : CertificateChain}
    {e : ChainEvaluation}

theorem CertificateChain.Describes.fails_iff (h : Describes context time order e) :
    (∃ f ∈ e.certificates, f.status < .expired) ↔
      Fails context.revocation order e.certificates.length := by
  constructor
  · rintro ⟨f, hf, hs⟩
    obtain ⟨i, hi⟩ := List.mem_iff_getElem?.1 hf
    obtain ⟨c, parent, hc, hp, he⟩ := h.finding hi
    have hlt := (List.getElem?_eq_some_iff.1 hi).1
    exact ⟨i, c, parent, hlt, hc, hp,
      (checked_finding c parent context time _ he).lt_expired_iff.1 hs⟩
  · rintro ⟨i, c, parent, hlt, hc, hp, hx⟩
    have hi := List.getElem?_eq_getElem hlt
    obtain ⟨c', parent', hc', hp', he⟩ := h.finding hi
    rw [hc] at hc'
    rw [hp] at hp'
    cases hc'
    cases hp'
    exact ⟨_, List.mem_of_getElem? hi,
      (checked_finding c parent context time _ he).lt_expired_iff.2 hx⟩

theorem CertificateChain.Describes.remote_iff (h : Describes context time order e) :
    ChainEvaluation.isRemote e.certificates.tail = true ↔ Remote order e.certificates.length := by
  -- a finding and the certificate it is on say the same about Google and about provisioning
  have hown : ∀ {i : Nat} {f : CertificateFinding} {c : Certificate}, e.certificates[i]? = some f →
      order[i]? = some c → ((ChainEvaluation.isGoogleOwn f = true ↔ c.NamesGoogle) ∧
        (f.provisioning.isSome = true ↔ c.IsProvisioned)) := by
    intro i f c hi hc
    obtain ⟨d, parent, hd, -, rfl⟩ := h.finding hi
    rw [hc] at hd
    cases hd
    exact ⟨ChainEvaluation.occursIn_iff _ _, c.isProvisioned_iff⟩
  have hget : ∀ {i : Nat} {c : Certificate}, i < e.certificates.length → order[i]? = some c →
      ∃ f, e.certificates[i]? = some f := fun hi _ => ⟨_, List.getElem?_eq_getElem hi⟩
  simp only [ChainEvaluation.isRemote_iff, List.getElem?_tail]
  constructor
  · rintro ⟨i, f, hi, hf, hp, hb⟩
    obtain ⟨c, -, hc, -, -⟩ := h.finding hi
    have hlt := (List.getElem?_eq_some_iff.1 hi).1
    refine ⟨i + 1, c, by omega, hlt, hc, ?_, (hown hi hc).2.1 hp, ?_⟩
    · intro hn
      rw [(hown hi hc).1.2 hn] at hf
      cases hf
    · intro j d hj hji hd
      obtain ⟨j, rfl⟩ : ∃ k, j = k + 1 := ⟨j - 1, by omega⟩
      obtain ⟨g, hg⟩ := hget (by omega) hd
      exact (hown hg hd).1.1 (hb j g (by omega) hg)
  · rintro ⟨i, c, hpos, hlt, hc, hn, hp, hb⟩
    obtain ⟨i, rfl⟩ : ∃ k, i = k + 1 := ⟨i - 1, by omega⟩
    obtain ⟨f, hf⟩ := hget hlt hc
    refine ⟨i, f, hf, ?_, (hown hf hc).2.2 hp, ?_⟩
    · rw [← Bool.not_eq_true]
      exact fun ho => hn ((hown hf hc).1.1 ho)
    · intro j g hj hg
      obtain ⟨d, -, hd, -, -⟩ := h.finding hg
      exact (hown hg hd).1.2 (hb (j + 1) d (by omega) (by omega) hd)

theorem CertificateChain.Describes.issuer_cases (h : Describes context time order e) :
    ∃ root, order.head? = some root ∧
      ((Fails context.revocation order e.certificates.length ∧ e.issuer = .failed) ∨
        ¬ Fails context.revocation order e.certificates.length ∧
          ((context.anchors.classify root.keyInfo = .google ∧ Remote order e.certificates.length ∧
              e.issuer = .googleRemote) ∨
            ((context.anchors.classify root.keyInfo = .google →
              ¬ Remote order e.certificates.length) ∧
              e.issuer = context.anchors.classify root.keyInfo))) := by
  obtain ⟨f, hf⟩ : ∃ f, e.certificates[0]? = some f := ⟨_, List.getElem?_eq_getElem h.nonempty⟩
  obtain ⟨root, parent, hroot, -, hfound⟩ := h.finding hf
  have hcons : e.certificates = f :: e.certificates.tail := by
    rw [← List.head?_eq_getElem?] at hf
    exact (List.cons_head?_tail hf).symm
  have ha : f.anchor = some (context.anchors.classify root.keyInfo) := by rw [hfound]; rfl
  rw [← h.fails_iff, ← h.remote_iff]
  refine ⟨root, by rw [List.head?_eq_getElem?, hroot], ?_⟩
  unfold ChainEvaluation.issuer
  rw [hcons]
  rcases ChainEvaluation.issuerOf_cases e.certificates.tail ha with hx | ⟨hn, he⟩
  · exact Or.inl hx
  · right
    refine ⟨hn, ?_⟩
    rw [List.tail_cons, he]
    split
    · next hg => exact Or.inl ⟨hg.1, hg.2, rfl⟩
    · next hg => exact Or.inr ⟨fun h₁ h₂ => hg ⟨h₁, h₂⟩, rfl⟩

end

/-- What each issuer of an evaluation of an order means, for anchors after additions. -/
structure IsVerdict (revocation : R) (additions : List Addition) (order : CertificateChain)
    (root : Certificate) (e : ChainEvaluation) : Prop where
  ne_nobody : e.issuer ≠ .nobody
  failed : e.issuer = .failed ↔ Fails revocation order e.certificates.length
  google : e.issuer = .google ↔ ¬ Fails revocation order e.certificates.length ∧
    IsKnownKey .google root.keyInfo ∧ ¬ Remote order e.certificates.length
  googleRemote : e.issuer = .googleRemote ↔ ¬ Fails revocation order e.certificates.length ∧
    IsKnownKey .google root.keyInfo ∧ Remote order e.certificates.length
  aosp : e.issuer = .aosp ↔
    ¬ Fails revocation order e.certificates.length ∧ IsKnownKey .aosp root.keyInfo
  knox : e.issuer = .knox ↔
    ¬ Fails revocation order e.certificates.length ∧ IsKnownKey .knox root.keyInfo
  manufacturer : e.issuer = .manufacturer ↔ ¬ Fails revocation order e.certificates.length ∧
    Offered additions root.keyInfo ∧ ∀ issuer, ¬ IsKnownKey issuer root.keyInfo
  unknown : e.issuer = .unknown ↔ ¬ Fails revocation order e.certificates.length ∧
    ¬ Offered additions root.keyInfo ∧ ∀ issuer, ¬ IsKnownKey issuer root.keyInfo

theorem isVerdict_of_describes {additions : List Addition} {revocation : R} {time : Instant}
    {order : CertificateChain} {e : ChainEvaluation}
    (h : Describes ⟨revocation, after additions⟩ time order e) :
    ∃ root, order.head? = some root ∧ IsVerdict revocation additions order root e := by
  obtain ⟨root, hroot, hcases⟩ := h.issuer_cases
  refine ⟨root, hroot, ?_⟩
  have hk := classified_after additions root.keyInfo
  rcases hcases with ⟨hf, he⟩ | ⟨hf, ⟨hg, hr, he⟩ | ⟨hr, he⟩⟩
  · constructor <;> simp [he, hf]
  · rw [hg] at hk
    cases hk with
    | known hk =>
      have hno : ¬ ∀ issuer, ¬ IsKnownKey issuer root.keyInfo := fun hn => hn _ hk
      constructor <;> simp [he, hf, hr, hk.iff_eq .google, hk.iff_eq .aosp, hk.iff_eq .knox, hno]
  · simp only at hr he
    generalize (after additions).classify root.keyInfo = issuer at hk hr he
    cases hk with
    | known hk =>
      have hno : ¬ ∀ issuer, ¬ IsKnownKey issuer root.keyInfo := fun hn => hn _ hk
      rcases hk.issuer_eq with rfl | rfl | rfl
      · constructor <;>
          simp [he, hf, hr rfl, hk.iff_eq .google, hk.iff_eq .aosp, hk.iff_eq .knox, hno]
      · constructor <;> simp [he, hf, hk.iff_eq .google, hk.iff_eq .aosp, hk.iff_eq .knox, hno]
      · constructor <;> simp [he, hf, hk.iff_eq .google, hk.iff_eq .aosp, hk.iff_eq .knox, hno]
    | added hn ho => constructor <;> simp [he, hf, hn, ho]
    | unknown hn ho => constructor <;> simp [he, hf, hn, ho]

/-- A chain with a certificate has a verdict, whatever keys were added before. -/
theorem evaluate_isVerdict (c : Certificate) (rest : CertificateChain) (revocation : R)
    (additions : List Addition) (time : Instant) :
    ∃ e root, evaluate (c :: rest) ⟨revocation, after additions⟩ time = .ok e ∧
      (rootFirst (c :: rest)).head? = some root ∧
      IsVerdict revocation additions (rootFirst (c :: rest)) root e := by
  rcases evaluate_cases (c :: rest) ⟨revocation, after additions⟩ time with ⟨hn, -⟩ | ⟨e, he, hd⟩
  · exact absurd hn (rootFirst_ne_nil (by simp))
  · obtain ⟨root, hr, hv⟩ := isVerdict_of_describes hd
    exact ⟨e, root, he, hr, hv⟩

end AttestedKey
