import AttestedKey.Proofs.Anchors
import AttestedKey.Proofs.BundledChain

/-! Bundles of certificates whose keys are added to the anchors. A bundle is added whole if all its
keys can be read; if one cannot, the keys in front of it stay (`IsBundleAddition`). So a bundle
that is refused may leave a key that is trusted from then on (`addPem_partial`). -/

namespace AttestedKey.TrustAnchors

theorem addKeys_eq_error_iff {a : TrustAnchors} {keys : List (Option Octets)} {count : Nat}
    {e : StoreError} :
    (a.addKeys count keys).1 = .error e ↔ none ∈ keys ∧ e = .crypto "unreadable public key" := by
  induction keys generalizing a count with
  | nil => simp [addKeys]
  | cons k rest ih =>
    cases k with
    | none => simp [addKeys, eq_comm]
    | some key => simp [addKeys, ih]

/-- If all keys can be read, none is left out. -/
theorem mem_readable_iff {keys : List (Option Octets)} (h : none ∉ keys) (key : Octets) :
    key ∈ readable keys ↔ some key ∈ keys := by
  induction keys with
  | nil => simp [readable]
  | cons k rest ih =>
    cases k with
    | none => exact absurd List.mem_cons_self h
    | some k => simp [readable, ih fun hrest => h (List.mem_cons_of_mem _ hrest)]

namespace Grows

variable {offered new : List Octets} {a b : TrustAnchors} (h : Grows offered new a b)
include h

theorem mem_added (key : Octets) :
    key ∈ b.added ↔ key ∈ a.added ∨ key ∈ offered ∧ ¬ IsKnownKey .google key := by
  rw [h.added, List.mem_append, h.mem]
  tauto

/-- Nothing changes if there is nothing new, the Google key apart. -/
theorem eq_iff : b = a ↔ ∀ key ∈ offered, key ∈ a.added ∨ IsKnownKey .google key := by
  constructor
  · rintro rfl key hkey
    by_contra hnew
    rw [not_or] at hnew
    have hmem := (h.mem key).2 ⟨hkey, hnew⟩
    have hnil : new = [] := List.append_right_eq_self.1 h.added.symm
    rw [hnil] at hmem
    cases hmem
  · intro hall
    have hnil : new = [] := by
      refine List.eq_nil_iff_forall_not_mem.2 fun key hkey => ?_
      obtain ⟨hoffered, hnew, hother⟩ := (h.mem key).1 hkey
      exact (hall key hoffered).elim hnew hother
    have hadded := h.added
    rw [hnil, List.append_nil] at hadded
    cases a
    cases b
    cases h.known
    cases hadded
    rfl

/-- What a key is taken for changes if it is new and not known from the start. -/
theorem classify_ne_iff (ha : a.known = knownKeys) (key : Octets) :
    b.classify key ≠ a.classify key ↔
    key ∈ offered ∧ key ∉ a.added ∧ ∀ issuer, ¬ IsKnownKey issuer key := by
  rw [← known?_eq_none_iff ha]
  have hknown : b.known? key = a.known? key := by
    unfold known?
    rw [h.known]
  have hgoogle : a.known? key = none → ¬ IsKnownKey .google key :=
    fun hnone => (known?_eq_none_iff ha key).1 hnone _
  unfold classify
  rw [hknown]
  cases hcase : a.known? key with
  | some issuer => simp
  | none =>
    have hmem := h.mem_added key
    by_cases hold : key ∈ a.added
    · simp [hold, hmem]
    · by_cases hoffered : key ∈ offered
      · simp [hold, hmem, hoffered, hgoogle hcase]
      · simp [hold, hmem, hoffered]

end Grows

variable [Cryptography]

/-- Why a bundle is refused. -/
theorem addPem_eq_error_iff {a : TrustAnchors} {pem : Octets} {e : StoreError} :
    (a.addPem pem).1 = .error e ↔
    (CertificateChain.pemParts? pem = none ∧ e = .crypto "unreadable PEM block") ∨
      (CertificateChain.pemParts? pem = some [] ∧ e = .syntaxError CertificateChain.noneInPem) ∨
        ∃ parts, CertificateChain.pemParts? pem = some parts ∧ (∃ p ∈ parts, keyOf? p = none) ∧
          e = .crypto "unreadable public key" := by
  unfold addPem
  cases CertificateChain.pemParts? pem with
  | none => simp [eq_comm]
  | some parts =>
    cases parts with
    | nil => simp [eq_comm]
    | cons p rest =>
      simp only [addKeys_eq_error_iff, List.mem_map]
      simp

/-- What becomes of the anchors, after additions, when the keys of a bundle are added. -/
structure IsBundleAddition (before : List Addition) (pem : Octets) : Prop where
  error_iff : ∀ e, ((after before).addPem pem).1 = .error e ↔
    (CertificateChain.pemParts? pem = none ∧ e = .crypto "unreadable PEM block") ∨
      (CertificateChain.pemParts? pem = some [] ∧ e = .syntaxError CertificateChain.noneInPem) ∨
        ∃ parts, CertificateChain.pemParts? pem = some parts ∧ (∃ p ∈ parts, keyOf? p = none) ∧
          e = .crypto "unreadable public key"
  whole : ∀ n, ((after before).addPem pem).1 = .ok n →
    ∀ parts, CertificateChain.pemParts? pem = some parts →
    ∀ p ∈ parts, ∃ key, keyOf? p = some key ∧
      (key ∈ ((after before).addPem pem).2.added ∨ IsKnownKey .google key)
  /-- Refused or not, the keys that could be read up to there are added. -/
  grows : ∃ new, Grows (Addition.bundle pem).offers new (after before) ((after before).addPem pem).2
  /-- So a bundle that is refused leaves the anchors as they were if and only if it has no new key
  in front of the one that cannot be read. -/
  kept_iff : ∀ e, ((after before).addPem pem).1 = .error e →
    (((after before).addPem pem).2 = after before ↔
    ∀ key ∈ (Addition.bundle pem).offers, Offered before key ∨ IsKnownKey .google key)
  classify_ne_iff : ∀ e, ((after before).addPem pem).1 = .error e → ∀ key,
    ((after before).addPem pem).2.classify key ≠ (after before).classify key ↔
      key ∈ (Addition.bundle pem).offers ∧ ¬ Offered before key ∧ ∀ issuer, ¬ IsKnownKey issuer key

theorem grows_addPem {a : TrustAnchors} (ha : a.known = knownKeys) (pem : Octets) :
    ∃ new, Grows (Addition.bundle pem).offers new a (a.addPem pem).2 := by
  obtain ⟨new, hgrows, -⟩ := grows_apply ha (.bundle pem)
  exact ⟨new, hgrows⟩

theorem addPem_whole {a : TrustAnchors} (ha : a.known = knownKeys) {pem : Octets} {n : Nat}
    (hok : (a.addPem pem).1 = .ok n) {parts : List Conformance.Parts}
    (hparts : CertificateChain.pemParts? pem = some parts) {p : Conformance.Parts}
    (hp : p ∈ parts) :
    ∃ key, keyOf? p = some key ∧ (key ∈ (a.addPem pem).2.added ∨ IsKnownKey .google key) := by
  have hread : ∀ p ∈ parts, keyOf? p ≠ none := by
    intro p hp hnone
    have herror : (a.addPem pem).1 = .error _ :=
      addPem_eq_error_iff.2 (.inr (.inr ⟨parts, hparts, ⟨p, hp, hnone⟩, rfl⟩))
    cases herror.symm.trans hok
  have hnone : none ∉ parts.map keyOf? := by
    rintro hmem
    obtain ⟨p, hp, hnone⟩ := List.mem_map.1 hmem
    exact hread p hp hnone
  obtain ⟨key, hkey⟩ := Option.ne_none_iff_exists'.1 (hread p hp)
  refine ⟨key, hkey, or_iff_not_imp_right.2 fun hother => ?_⟩
  obtain ⟨new, hgrows⟩ := grows_addPem ha pem
  refine (hgrows.mem_added key).2 (.inr ⟨?_, hother⟩)
  rw [Addition.offers, hparts, Option.map_some, Option.getD_some, mem_readable_iff hnone, ← hkey]
  exact List.mem_map_of_mem hp

/-- Whatever was added before, and whatever the bundle. -/
theorem addPem_isBundleAddition (before : List Addition) (pem : Octets) :
    IsBundleAddition before pem := by
  have ha := after_known before
  obtain ⟨new, hgrows⟩ := grows_addPem ha pem
  refine ⟨fun e => addPem_eq_error_iff, fun n hok parts hparts p hp =>
    addPem_whole ha hok hparts hp, ⟨new, hgrows⟩,
    fun e he => ?_, fun e he key => ?_⟩
  · rw [hgrows.eq_iff]
    refine forall₂_congr fun key hkey => ?_
    rw [mem_after]
    by_cases hgoogle : IsKnownKey .google key <;> simp [hgoogle]
  · rw [hgrows.classify_ne_iff ha, mem_after]
    refine and_congr_right fun _ => ?_
    constructor
    · rintro ⟨hnew, hother⟩
      exact ⟨fun hoffered => hnew ⟨hoffered, hother _⟩, hother⟩
    · rintro ⟨hnew, hother⟩
      exact ⟨fun h => hnew h.1, hother⟩

end AttestedKey.TrustAnchors

namespace AttestedKey.HalfBundle

/-- A certificate whose public key is no point of its curve. -/
def unreadable : Octets :=
  .ofNat 40 0x3082017a30820121a00302010202026001300a06082a8648ce3d040302303731153013060355040a ++
  .ofNat 40 0x0c0c4578616d706c6520436f7270311e301c06035504030c1554657374204174746573746174696f ++
  .ofNat 40 0x6e20526f6f743020170d3234303130313030303030305a180f32303939313233313030303030305a ++
  .ofNat 40 0x303f31153013060355040a0c0c4578616d706c6520436f72703126302406035504030c1d54657374 ++
  .ofNat 40 0x204174746573746174696f6e20496e7465726d6564696174653059301306072a8648ce3d02010608 ++
  .ofNat 40 0x2a8648ce3d0301070342000401010101010101010101010101010101010101010101010101010101 ++
  .ofNat 40 0x010101010101010101010101010101010101010101010101010101010101010101010101a3133011 ++
  .ofNat 40 0x300f0603551d130101ff040530030101ff300a06082a8648ce3d040302034700304402204db88e1b ++
  .ofNat 40 0x970e6f40235d7ce97e71739c091993a8ee5365587cdd46622db85065022053a07d10de4fe7c46bb0 ++
  .ofNat 22 0x8d9551334806992d9035e35e1543e3e63b7cabbceacc

def pem : Octets :=
  [JunkChain.root, unreadable].flatMap (Pem.write CertificateChain.certificateLabel)

def rootKey : Octets := (JunkChain.root.drop 176).take 91

theorem keys_pem :
    (CertificateChain.pemParts? pem).map (·.map TrustAnchors.keyOf?) =
      some [some rootKey, none] := by
  rw [pem, CertificateChain.pemParts?_write]
  decide +kernel

theorem not_isKnownKey_rootKey (issuer : Issuer) : ¬ TrustAnchors.IsKnownKey issuer rootKey :=
  TrustAnchors.not_isKnownKey_of_mark (by decide +kernel) issuer

end AttestedKey.HalfBundle

namespace AttestedKey.TrustAnchors

/-- A bundle that is refused for its second key, and leaves the first one trusted. -/
theorem addPem_partial :
    (empty.addPem HalfBundle.pem).1 = .error (.crypto "unreadable public key") ∧
      (empty.addPem HalfBundle.pem).2.added = [HalfBundle.rootKey] ∧
      (empty.addPem HalfBundle.pem).2 ≠ empty ∧
      empty.classify HalfBundle.rootKey = .unknown ∧
      (empty.addPem HalfBundle.pem).2.classify HalfBundle.rootKey = .manufacturer := by
  obtain ⟨parts, hparts, hkeys⟩ := Option.map_eq_some_iff.1 HalfBundle.keys_pem
  have hoffers : (Addition.bundle HalfBundle.pem).offers = [HalfBundle.rootKey] := by
    rw [Addition.offers, hparts, Option.map_some, hkeys]
    rfl
  obtain ⟨new, hgrows⟩ := grows_addPem empty_known HalfBundle.pem
  rw [hoffers] at hgrows
  have hnew : new = [HalfBundle.rootKey] := by
    refine List.perm_singleton.1
      ((List.perm_ext_iff_of_nodup hgrows.nodup (List.nodup_singleton _)).2 fun key => ?_)
    rw [hgrows.mem, empty_added]
    constructor
    · exact And.left
    · intro hkey
      rw [List.mem_singleton.1 hkey]
      exact ⟨List.mem_singleton_self _, List.not_mem_nil, HalfBundle.not_isKnownKey_rootKey _⟩
  have hadded := hgrows.added
  rw [empty_added, List.nil_append, hnew] at hadded
  have hunknown : ∀ a : TrustAnchors, a.known = knownKeys → a.known? HalfBundle.rootKey = none :=
    fun a ha =>
    (known?_eq_none_iff ha _).2 HalfBundle.not_isKnownKey_rootKey
  refine ⟨?_, hadded, ?_, ?_, ?_⟩
  · obtain ⟨p, hp, hnone⟩ :=
      List.mem_map.1 (hkeys ▸ List.mem_cons_of_mem _ (List.mem_singleton_self _) :
      none ∈ parts.map keyOf?)
    exact addPem_eq_error_iff.2 (.inr (.inr ⟨parts, hparts, ⟨p, hp, hnone⟩, rfl⟩))
  · intro heq
    rw [heq, empty_added] at hadded
    cases hadded
  · rw [classify, hunknown _ empty_known, empty_added]
    rfl
  · rw [classify, hunknown _ (hgrows.known.trans empty_known), hadded]
    simp

end AttestedKey.TrustAnchors
