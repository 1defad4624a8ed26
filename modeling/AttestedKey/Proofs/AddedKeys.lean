import AttestedKey.Proofs.Anchors
import Mathlib.Data.Set.Card

/-! The keys that additions have brought in. They are counted without repetition, each addition
says how many of its keys were new, and neither their number nor what a key is taken for depends on
the order of the additions (`after_isRegister`). -/

namespace AttestedKey.TrustAnchors

theorem ncard_mem {keys : List Octets} (h : keys.Nodup) :
    {key | key ∈ keys}.ncard = keys.length := by
  rw [← List.coe_toFinset, Set.ncard_coe_finset, List.toFinset_card_of_nodup h]

variable [Cryptography]

/-- The keys that additions have brought in, each of them once. -/
theorem length_after (additions : List Addition) :
    (after additions).added.length =
    {key | Offered additions key ∧ ¬ IsKnownKey .google key}.ncard := by
  rw [← ncard_mem (grows_after additions).nodup]
  simp only [mem_after]

/-- The keys that one more addition brings in. -/
theorem report_after {before : List Addition} {x : Addition} {n : Nat}
    (h : (after before).report x = .ok n) :
    n = {key | key ∈ x.offers ∧ ¬ Offered before key ∧ ¬ IsKnownKey .google key}.ncard ∧
      (after (before ++ [x])).added.length = (after before).added.length + n := by
  obtain ⟨new, hgrows, hcount⟩ := grows_apply (after_known before) x
  constructor
  · rw [hcount n h, ← ncard_mem hgrows.nodup]
    congr 1
    ext key
    rw [Set.mem_ofPred_eq, Set.mem_ofPred_eq, hgrows.mem, mem_after]
    tauto
  · rw [after, List.foldl_append, List.foldl_cons, List.foldl_nil]
    change (apply (after before) x).added.length = _
    rw [hgrows.added, List.length_append, hcount n h]

theorem Offered.of_perm {additions reordered : List Addition} (h : reordered.Perm additions)
    (key : Octets) : Offered reordered key ↔ Offered additions key := by
  simp only [Offered, h.mem_iff]

theorem Classified.of_perm {additions reordered : List Addition} (h : reordered.Perm additions)
    {key : Octets} {issuer : Issuer} (hc : Classified additions key issuer) :
    Classified reordered key issuer := by
  cases hc with
  | known hk => exact .known hk
  | added hn ho => exact .added hn ((Offered.of_perm h key).2 ho)
  | unknown hn ho => exact .unknown hn fun ho' => ho ((Offered.of_perm h key).1 ho')

/-- What the anchors are after additions, some of which may have failed: which keys were added and
how many, what each addition said of that, and what keys are taken for. -/
structure IsRegister (additions : List Addition) : Prop where
  nodup : (after additions).added.Nodup
  notGoogle : ∀ key, IsKnownKey .google key → key ∉ (after additions).added
  size : (after additions).added.length =
    {key | Offered additions key ∧ ¬ IsKnownKey .google key}.ncard
  reports : ∀ before x rest n, additions = before ++ x :: rest → (after before).report x = .ok n →
    n = {key | key ∈ x.offers ∧ ¬ Offered before key ∧ ¬ IsKnownKey .google key}.ncard ∧
      (after (before ++ [x])).added.length = (after before).added.length + n
  known : ∀ issuer key, IsKnownKey issuer key → (after additions).classify key = issuer
  others : ∀ key, (∀ issuer, ¬ IsKnownKey issuer key) →
    ((after additions).classify key = .manufacturer ↔ Offered additions key) ∧
      ((after additions).classify key = .unknown ↔ ¬ Offered additions key)
  anyOrder : ∀ reordered, reordered.Perm additions →
    (after reordered).added.length = (after additions).added.length ∧
      ∀ key, (after reordered).classify key = (after additions).classify key

/-- Whatever is added, and whichever additions fail. -/
theorem after_isRegister (additions : List Addition) : IsRegister additions where
  nodup := (grows_after additions).nodup
  notGoogle := fun key hgoogle hkey => ((mem_after additions key).1 hkey).2 hgoogle
  size := length_after additions
  reports := fun _ _ _ _ _ h => report_after h
  known := fun issuer key h => (classify_after_iff additions key issuer).2 (.known h)
  others := by
    intro key hn
    have hc := classified_after additions key
    generalize (after additions).classify key = issuer at hc
    cases hc with
    | known h => exact absurd h (hn _)
    | added _ ho => simp [ho]
    | unknown _ ho => simp [ho]
  anyOrder := by
    intro reordered h
    constructor
    · simp only [length_after, Offered.of_perm h]
    · intro key
      exact (classify_after_iff reordered key _).2 ((classified_after additions key).of_perm h)

end AttestedKey.TrustAnchors
