import AttestedKey.TrustAnchor.Basic
import Mathlib.Data.List.Nodup
import Mathlib.Tactic.Tauto

/-! Whose key is whose. The keys known from the start differ from each other, so the order they are
looked through does not show. An addition puts what it offers and is new behind the keys that are
there already and touches nothing else, also where it fails on the way (`Grows`); such steps
compose, so the keys added by any run of additions are those it offers, but for the Google key.
`classify_after_iff` says from both what a key is taken for. -/

namespace AttestedKey

namespace TrustAnchors

inductive IsKnownKey : Issuer → Octets → Prop
  | google {key : Octets} : Base64.decode? .standard googleKey = some key → IsKnownKey .google key
  | aospEc {key : Octets} : Base64.decode? .standard aospEcKey = some key → IsKnownKey .aosp key
  | aospRsa {key : Octets} : Base64.decode? .standard aospRsaKey = some key → IsKnownKey .aosp key
  | knoxSakV2 {key : Octets} : Base64.decode? .standard knoxSakV2Key = some key →
      IsKnownKey .knox key
  | knoxSakV1 {key : Octets} : Base64.decode? .standard knoxSakV1Key = some key →
      IsKnownKey .knox key
  | knoxSakmV1 {key : Octets} : Base64.decode? .standard knoxSakmV1Key = some key →
      IsKnownKey .knox key

def mark (key : Octets) : Octets := (key.drop 30).take 4

def knownMarks : List Octets :=
  [[0x02, 0x01, 0x00, 0xaf], [0xc7, 0xe1, 0xc0, 0xdb], [0x6b, 0xad, 0xeb, 0x6e],
    [0x2e, 0xba, 0x6a, 0x97], [0xaf, 0xff, 0xd1, 0x12], [0x37, 0xc9, 0x60, 0xea]]

theorem marks :
    [googleKey, aospEcKey, aospRsaKey, knoxSakV2Key, knoxSakV1Key, knoxSakmV1Key].map
        (fun text => (Base64.decode? .standard text).map mark) = knownMarks.map some := by
  simp only [List.map_cons, List.map_nil]
  unfold Base64.decode? googleKey aospEcKey aospRsaKey knoxSakV2Key knoxSakV1Key knoxSakmV1Key
  -- the characters of the texts first: evaluating a text itself takes long
  repeat rw [String.toList_append]
  repeat rw [String.toList_ofList]
  decide +kernel

theorem not_isKnownKey_of_mark {key : Octets} (hmark : mark key ∉ knownMarks) (issuer : Issuer) :
    ¬ IsKnownKey issuer key := by
  intro h
  have hknown : some (mark key) ∈
    [googleKey, aospEcKey, aospRsaKey, knoxSakV2Key, knoxSakV1Key, knoxSakmV1Key].map
      fun text => (Base64.decode? .standard text).map mark := by
    cases h <;> simp [*]
  rw [marks] at hknown
  obtain ⟨m, hm, heq⟩ := List.mem_map.1 hknown
  exact hmark (Option.some.inj heq ▸ hm)

/-- All six keys can be read, and no two are the same. -/
theorem nodup_knownKeys : (knownKeys.map (·.2)).Nodup := by
  have h := marks
  simp only [knownMarks, List.map_cons, List.map_nil, List.cons.injEq, Option.map_eq_some_iff,
    and_true] at h
  obtain ⟨⟨k₁, h₁, m₁⟩, ⟨k₂, h₂, m₂⟩, ⟨k₃, h₃, m₃⟩, ⟨k₄, h₄, m₄⟩, ⟨k₅, h₅, m₅⟩, ⟨k₆, h₆, m₆⟩⟩ := h
  have hk : knownKeys.map (·.2) = [k₁, k₂, k₃, k₄, k₅, k₆] := by
    unfold knownKeys
    simp [h₁, h₂, h₃, h₄, h₅, h₆]
  apply List.Nodup.of_map mark
  rw [hk]
  simp only [List.map_cons, List.map_nil, m₁, m₂, m₃, m₄, m₅, m₆]
  decide

theorem mem_knownKeys_iff (issuer : Issuer) (key : Octets) :
    (issuer, key) ∈ knownKeys ↔ IsKnownKey issuer key := by
  constructor
  · intro h
    unfold knownKeys at h
    obtain ⟨⟨i, text⟩, ht, hd⟩ := List.mem_filterMap.1 h
    obtain ⟨k, hk, he⟩ := Option.map_eq_some_iff.1 hd
    cases he
    simp only [List.mem_cons, Prod.mk.injEq, List.not_mem_nil, or_false] at ht
    rcases ht with ⟨rfl, rfl⟩ | ⟨rfl, rfl⟩ | ⟨rfl, rfl⟩ | ⟨rfl, rfl⟩ | ⟨rfl, rfl⟩ | ⟨rfl, rfl⟩
    · exact .google hk
    · exact .aospEc hk
    · exact .aospRsa hk
    · exact .knoxSakV2 hk
    · exact .knoxSakV1 hk
    · exact .knoxSakmV1 hk
  · intro h
    unfold knownKeys
    cases h <;> simp [*]

theorem IsKnownKey.unique {i j : Issuer} {key : Octets} (hi : IsKnownKey i key)
    (hj : IsKnownKey j key) : i = j := by
  have h :=
    List.inj_on_of_nodup_map nodup_knownKeys ((mem_knownKeys_iff i key).2 hi)
    ((mem_knownKeys_iff j key).2 hj) rfl
  exact congrArg Prod.fst h

theorem IsKnownKey.iff_eq {i : Issuer} {key : Octets} (h : IsKnownKey i key) (j : Issuer) :
    IsKnownKey j key ↔ j = i :=
  ⟨fun hj => hj.unique h, fun he => he ▸ h⟩

theorem IsKnownKey.issuer_eq {i : Issuer} {key : Octets} (h : IsKnownKey i key) :
    i = .google ∨ i = .aosp ∨ i = .knox := by
  cases h <;> simp

theorem known?_eq_some_iff {a : TrustAnchors} (ha : a.known = knownKeys) (issuer : Issuer)
    (key : Octets) : a.known? key = some issuer ↔ IsKnownKey issuer key := by
  unfold known?
  rw [ha]
  constructor
  · intro h
    obtain ⟨⟨i, k⟩, hk, rfl⟩ := Option.map_eq_some_iff.1 h
    have hkey := List.find?_some hk
    rw [beq_iff_eq] at hkey
    subst hkey
    exact (mem_knownKeys_iff i k).1 (List.mem_of_find?_eq_some hk)
  · intro h
    have hm := (mem_knownKeys_iff issuer key).2 h
    cases hf : knownKeys.find? (fun k => k.2 == key) with
    | none => exact absurd (List.find?_eq_none.1 hf _ hm) (by simp)
    | some k =>
      obtain ⟨i, k⟩ := k
      have hkey := List.find?_some hf
      rw [beq_iff_eq] at hkey
      subst hkey
      have := ((mem_knownKeys_iff i k).1 (List.mem_of_find?_eq_some hf)).unique h
      rw [this]
      rfl

theorem known?_eq_none_iff {a : TrustAnchors} (ha : a.known = knownKeys) (key : Octets) :
    a.known? key = none ↔ ∀ issuer, ¬ IsKnownKey issuer key := by
  simp only [← known?_eq_some_iff ha, Option.eq_none_iff_forall_not_mem, Option.mem_def]

inductive Addition
  | key (keyInfo : Octets)
  | bundle (pem : Octets)

/-- The keys before the first that cannot be read. -/
def readable : List (Option Octets) → List Octets
  | some key :: rest => key :: readable rest
  | _ => []

/-- Of what is offered, the keys that were not there yet now stand behind those that were, but for
the Google key. -/
structure Grows (offered new : List Octets) (a b : TrustAnchors) : Prop where
  known : b.known = a.known
  added : b.added = a.added ++ new
  nodup : new.Nodup
  mem : ∀ key, key ∈ new ↔ key ∈ offered ∧ key ∉ a.added ∧ ¬ IsKnownKey .google key

theorem Grows.refl (a : TrustAnchors) : Grows [] [] a a := ⟨rfl, by simp, .nil, by simp⟩

theorem Grows.trans {offered offered' new new' : List Octets} {a b c : TrustAnchors}
    (h : Grows offered new a b) (h' : Grows offered' new' b c) :
    Grows (offered ++ offered') (new ++ new') a c where
  known := h'.known.trans h.known
  added := by rw [h'.added, h.added, List.append_assoc]
  nodup := by
    refine List.Nodup.append h.nodup h'.nodup fun key hkey hkey' => ?_
    have hb := ((h'.mem key).1 hkey').2.1
    rw [h.added] at hb
    exact hb (List.mem_append_right _ hkey)
  mem := by
    intro key
    have hb : key ∉ b.added ↔ key ∉ a.added ∧ key ∉ new := by rw [h.added, List.mem_append, not_or]
    rw [List.mem_append, List.mem_append, h'.mem, hb, h.mem]
    tauto

theorem grows_add {a : TrustAnchors} (ha : a.known = knownKeys) (key : Octets) :
    ∃ new, Grows [key] new a (a.add key).2 ∧ (a.add key).1.toNat = new.length := by
  have hgoogle : (a.known.any fun e => e.1 == .google && e.2 == key) = true ↔
    IsKnownKey .google key := by
    rw [ha, ← mem_knownKeys_iff, List.any_eq_true]
    simp
  unfold add
  split
  · next h =>
    rw [Bool.or_eq_true, hgoogle, List.contains_iff_mem] at h
    refine ⟨[], ⟨rfl, (List.append_nil _).symm, .nil, fun k => ?_⟩, rfl⟩
    simp only [List.not_mem_nil, List.mem_singleton, false_iff]
    rintro ⟨rfl, hnew, hother⟩
    exact h.elim hother hnew
  · next h =>
    rw [Bool.or_eq_true, hgoogle, List.contains_iff_mem, not_or] at h
    refine ⟨[key], ⟨rfl, rfl, List.nodup_singleton key, fun k => ?_⟩, rfl⟩
    simp only [List.mem_singleton]
    constructor
    · rintro rfl
      exact ⟨rfl, h.2, h.1⟩
    · exact And.left

/-- Keys up to one that cannot be read, `count` new ones having been there before them. -/
theorem grows_addKeys (keys : List (Option Octets)) {a : TrustAnchors} (ha : a.known = knownKeys)
    (count : Nat) :
    ∃ new, Grows (readable keys) new a (a.addKeys count keys).2 ∧
      ∀ n, (a.addKeys count keys).1 = .ok n → n = count + new.length := by
  induction keys generalizing a count with
  | nil => exact ⟨[], .refl a, fun n h => (by cases h; rfl)⟩
  | cons k rest ih =>
    cases k with
    | none => exact ⟨[], .refl a, fun n h => (by cases h)⟩
    | some key =>
      obtain ⟨new, hgrows, hcount⟩ := grows_add ha key
      obtain ⟨more, hmore, hn⟩ :=
        ih (hgrows.known.trans ha) (if (a.add key).1 then count + 1 else count)
      refine ⟨new ++ more, hgrows.trans hmore, fun n h => ?_⟩
      rw [hn n h, List.length_append, ← hcount]
      cases (a.add key).1
      · rw [if_neg Bool.false_ne_true, Bool.toNat_false, Nat.zero_add]
      · rw [if_pos rfl, Bool.toNat_true, Nat.add_assoc]

theorem empty_known : empty.known = knownKeys := by rw [empty]

theorem empty_added : empty.added = [] := by rw [empty]

variable [Cryptography]

def apply (a : TrustAnchors) : Addition → TrustAnchors
  | .key k => (a.add k).2
  | .bundle pem => (a.addPem pem).2

def after (additions : List Addition) : TrustAnchors := additions.foldl apply empty

def Addition.offers : Addition → List Octets
  | key k => [k]
  | bundle pem =>
    ((CertificateChain.pemParts? pem).map fun parts => readable (parts.map keyOf?)).getD []

/-- Some addition asks for the key. -/
def Offered (additions : List Addition) (key : Octets) : Prop := ∃ a ∈ additions, key ∈ a.offers

/-- How many keys an addition says that it has added, if it does not fail. -/
def report (a : TrustAnchors) : Addition → Except StoreError Nat
  | .key k => .ok (a.add k).1.toNat
  | .bundle pem => (a.addPem pem).1

/-- One addition, also one that fails. -/
theorem grows_apply {a : TrustAnchors} (ha : a.known = knownKeys) (x : Addition) :
    ∃ new, Grows x.offers new a (a.apply x) ∧ ∀ n, a.report x = .ok n → n = new.length := by
  cases x with
  | key k =>
    obtain ⟨new, hgrows, hcount⟩ := grows_add ha k
    exact ⟨new, hgrows, fun n h => (Except.ok.inj h).symm.trans hcount⟩
  | bundle pem =>
    simp only [apply, report, addPem, Addition.offers]
    cases CertificateChain.pemParts? pem with
    | none => exact ⟨[], .refl a, fun n h => (by cases h)⟩
    | some parts =>
      cases parts with
      | nil => exact ⟨[], .refl a, fun n h => (by cases h)⟩
      | cons c rest =>
        obtain ⟨new, hgrows, hcount⟩ := grows_addKeys ((c :: rest).map keyOf?) ha 0
        exact ⟨new, hgrows, fun n h => (hcount n h).trans (Nat.zero_add _)⟩

/-- A run of additions. -/
theorem grows_foldl (additions : List Addition) {a : TrustAnchors} (ha : a.known = knownKeys) :
    ∃ new, Grows (additions.flatMap Addition.offers) new a (additions.foldl apply a) := by
  induction additions generalizing a with
  | nil => exact ⟨[], .refl a⟩
  | cons x rest ih =>
    obtain ⟨new, hgrows, -⟩ := grows_apply ha x
    obtain ⟨more, hmore⟩ := ih (hgrows.known.trans ha)
    exact ⟨new ++ more, hgrows.trans hmore⟩

theorem grows_after (additions : List Addition) :
    Grows (additions.flatMap Addition.offers) (after additions).added empty (after additions) := by
  unfold after
  obtain ⟨new, hgrows⟩ := grows_foldl additions empty_known
  rwa [hgrows.added, empty_added, List.nil_append]

theorem after_known (additions : List Addition) : (after additions).known = knownKeys :=
  (grows_after additions).known.trans empty_known

/-- What was ever asked for is there, the Google key apart. -/
theorem mem_after (additions : List Addition) (key : Octets) :
    key ∈ (after additions).added ↔ Offered additions key ∧ ¬ IsKnownKey .google key := by
  rw [(grows_after additions).mem, List.mem_flatMap, empty_added]
  simp [Offered]

/-- What a key is taken for after additions: a known key by its issuer, and else by whether it was
added. -/
inductive Classified (additions : List Addition) (key : Octets) : Issuer → Prop
  | known {issuer : Issuer} : IsKnownKey issuer key → Classified additions key issuer
  | added : (∀ issuer, ¬ IsKnownKey issuer key) → Offered additions key →
      Classified additions key .manufacturer
  | unknown : (∀ issuer, ¬ IsKnownKey issuer key) → ¬ Offered additions key →
      Classified additions key .unknown

theorem classified_after (additions : List Addition) (key : Octets) :
    Classified additions key ((after additions).classify key) := by
  have ha := after_known additions
  have hm := mem_after additions key
  unfold classify
  cases hk : (after additions).known? key with
  | some issuer => exact .known ((known?_eq_some_iff ha issuer key).1 hk)
  | none =>
    have hn := (known?_eq_none_iff ha key).1 hk
    by_cases h : key ∈ (after additions).added
    · rw [if_pos (List.contains_iff_mem.2 h)]
      exact .added hn (hm.1 h).1
    · rw [if_neg fun hc => h (List.contains_iff_mem.1 hc)]
      exact .unknown hn fun ho => h (hm.2 ⟨ho, hn _⟩)

theorem Classified.unique {additions : List Addition} {key : Octets} {i j : Issuer}
    (hi : Classified additions key i) (hj : Classified additions key j) : i = j := by
  cases hi with
  | known h =>
    cases hj with
    | known h' => exact h.unique h'
    | added hn | unknown hn => exact absurd h (hn _)
  | added hn ho =>
    cases hj with
    | known h' => exact absurd h' (hn _)
    | added => rfl
    | unknown _ ho' => exact absurd ho ho'
  | unknown hn ho =>
    cases hj with
    | known h' => exact absurd h' (hn _)
    | added _ ho' => exact absurd ho' ho
    | unknown => rfl

theorem classify_after_iff (additions : List Addition) (key : Octets) (issuer : Issuer) :
    (after additions).classify key = issuer ↔ Classified additions key issuer := by
  have hc := classified_after additions key
  constructor
  · intro h
    rw [← h]
    exact hc
  · intro h
    exact hc.unique h

end TrustAnchors

end AttestedKey
