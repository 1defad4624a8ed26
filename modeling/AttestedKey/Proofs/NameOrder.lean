import AttestedKey.Proofs.SuppliedOrder

/-! The order of any chain, whatever its names. Certificates are put in order by their places, of
which none is lost or doubled, and the names decide only where they leave no choice: `Descends` is
a way down of which every step is the only one, so the certificates it leads through are in an
order of issuers and in the only such order below its start (`Descends.unique`). A chain put in
order is leaf first when it is turned round, or has been turned round itself, and so keeps its
order. -/

namespace AttestedKey.CertificateChain

def IsIssued (order : List Placed) : Prop :=
  order.IsChain fun parent c => c.1.isIssuedBy parent.1 = true

/-- Self-issued, or issued by no other certificate of the chain. -/
def IsTop (chain : CertificateChain) (c : Placed) : Prop :=
  c.1.isSelfIssued = true ∨ ∀ p ∈ chain.zipIdx, p.2 ≠ c.2 → c.1.isIssuedBy p.1 = false

/-- The names lead from the one top of the chain through all of it, and through it in no other
order. -/
structure Leads (chain : CertificateChain) (root : Placed) (below : List Placed) : Prop where
  top : ∀ c ∈ chain.zipIdx, IsTop chain c ↔ c = root
  issued : IsIssued (root :: below)
  only : ∀ other, (root :: other).Perm chain.zipIdx → IsIssued (root :: other) → other = below

/-- The places of a chain in the order from its root to its leaf. -/
structure IsRootFirst (chain : CertificateChain) (order : List Placed) : Prop where
  certificates : rootFirst chain = order.map (·.1)
  places : order.Perm chain.zipIdx
  supplied_or_led : order = chain.zipIdx.reverse ∨
    ∃ root below, order = root :: below ∧ Leads chain root below
  leafFirst : (chain.IsChain fun c issuer => c.isIssuedBy issuer = true) →
    order = chain.zipIdx.reverse
  /-- Supplied anew in this order, leaf first, the chain has the same order. -/
  stable : rootFirst (rootFirst chain).reverse = rootFirst chain

inductive Descends : Placed → List Placed → List Placed → Prop
  | nil (parent : Placed) : Descends parent [] []
  | cons {parent child : Placed} {left below : List Placed} :
      left.filter (fun c => c.1.isIssuedBy parent.1) = [child] →
        Descends child (without child left) below →
        Descends parent left (child :: below)

theorem mem_of_filter_eq_singleton {f : Placed → Bool} {c : Placed} {left : List Placed}
    (h : left.filter f = [c]) : c ∈ left ∧ f c = true :=
  List.mem_filter.1 (by rw [h]; exact List.mem_singleton_self c)

theorem length_without_lt {c : Placed} {left : List Placed} (h : c ∈ left) :
    (without c left).length < left.length :=
  List.length_filter_lt_length_iff_exists.2 ⟨c, h, by simp⟩

/-- As many steps as certificates are left are enough to go down. -/
theorem descend_eq_some_iff {n : Nat} {parent : Placed} {left below : List Placed}
    (hn : left.length ≤ n) : descend n parent left = some below ↔ Descends parent left below := by
  induction n generalizing parent left below with
  | zero =>
    obtain rfl := List.eq_nil_of_length_eq_zero (Nat.le_zero.1 hn)
    constructor
    · intro h
      cases h
      exact .nil parent
    · intro h
      cases h with
      | nil => rfl
      | cons hchild => cases hchild
  | succ n ih =>
    cases left with
    | nil =>
      constructor
      · intro h
        cases h
        exact .nil parent
      · intro h
        cases h with
        | nil => rfl
        | cons hchild => cases hchild
    | cons c left =>
      have hstep : ∀ {child : Placed},
        (c :: left).filter (fun c => c.1.isIssuedBy parent.1) = [child] →
          (without child (c :: left)).length ≤ n := fun hchild =>
        Nat.le_of_lt_succ ((length_without_lt (mem_of_filter_eq_singleton hchild).1).trans_le hn)
      simp only [descend]
      constructor
      · intro h
        split at h
        · next child hchild =>
          obtain ⟨rest, hrest, rfl⟩ := Option.map_eq_some_iff.1 h
          exact .cons hchild ((ih (hstep hchild)).1 hrest)
        · cases h
      · intro h
        cases h with
        | cons hchild hrest =>
          simp only [hchild, (ih (hstep hchild)).2 hrest, Option.map_some]

namespace Descends

variable {parent : Placed} {left below : List Placed}

theorem isIssued (h : Descends parent left below) : IsIssued (parent :: below) := by
  induction h with
  | nil parent => exact List.isChain_singleton parent
  | cons hchild _ ih => exact List.isChain_cons_cons.2 ⟨(mem_of_filter_eq_singleton hchild).2, ih⟩

variable (hn : (left.map (·.2)).Nodup)
include hn

theorem perm (h : Descends parent left below) : below.Perm left := by
  induction h with
  | nil => exact .nil
  | cons hchild _ ih =>
    exact ((ih (nodup_snd_without hn)).cons _).trans
      (perm_cons_without hn (mem_of_filter_eq_singleton hchild).1).symm

/-- Nothing else that is left is issued by the parent, so there is no other order to go on in. -/
theorem unique (h : Descends parent left below) {other : List Placed} (hperm : other.Perm left)
    (hissued : IsIssued (parent :: other)) : other = below := by
  induction h generalizing other with
  | nil => exact hperm.eq_nil
  | @cons parent child left below hchild _ ih =>
    have hleft := perm_cons_without hn (mem_of_filter_eq_singleton hchild).1
    cases other with
    | nil => cases (hleft.symm.trans hperm.symm).eq_nil
    | cons next other =>
      obtain ⟨hnext, hissued⟩ := List.isChain_cons_cons.1 hissued
      have hmem : next ∈ left.filter fun c => c.1.isIssuedBy parent.1 :=
        List.mem_filter.2 ⟨hperm.subset List.mem_cons_self, hnext⟩
      rw [hchild, List.mem_singleton] at hmem
      subst hmem
      rw [ih (nodup_snd_without hn) (hperm.trans hleft).cons_inv hissued]

end Descends

theorem nodup_snd_zipIdx (chain : CertificateChain) : (chain.zipIdx.map (·.2)).Nodup := by
  rw [List.zipIdx_map_snd]
  exact List.nodup_range'

theorem isRootOf_zipIdx_iff {chain : CertificateChain} {c : Placed} :
    isRootOf chain.zipIdx c = true ↔ IsTop chain c := by
  simp [isRootOf, IsTop]

/-- The certificates sorted by their names are those that the names lead through. -/
theorem exists_leads {chain sorted : CertificateChain} (h : sortedByNames? chain = some sorted) :
    ∃ root below, sorted = (root :: below).map (·.1) ∧ (root :: below).Perm chain.zipIdx ∧
      Leads chain root below := by
  simp only [sortedByNames?] at h
  split at h
  · next root hroot =>
    obtain ⟨below, hbelow, rfl⟩ := Option.map_eq_some_iff.1 h
    have hn := nodup_snd_zipIdx chain
    have hmem := (mem_of_filter_eq_singleton hroot).1
    have hdescends := (descend_eq_some_iff (length_without_lt hmem).le).1 hbelow
    have hleft := perm_cons_without hn hmem
    refine ⟨root, below, rfl, ((hdescends.perm (nodup_snd_without hn)).cons root).trans hleft.symm,
      ?_⟩
    refine ⟨fun c hc => ?_, hdescends.isIssued, fun other hperm hissued => ?_⟩
    · rw [← isRootOf_zipIdx_iff, ← List.mem_singleton (b := root), ← hroot, List.mem_filter]
      exact ⟨fun hr => ⟨hc, hr⟩, fun hr => hr.2⟩
    · exact hdescends.unique (nodup_snd_without hn) (hperm.trans hleft).cons_inv hissued
  · cases h

theorem rootFirst_of_isLeafFirst {chain : CertificateChain} (h : isLeafFirst chain = true) :
    rootFirst chain = chain.reverse := if_pos h

/-- A chain in an order of issuers is leaf first when it is turned round. -/
theorem isLeafFirst_reverse {order : List Placed} (h : IsIssued order) :
    isLeafFirst (order.map (·.1)).reverse = true := by
  rw [isLeafFirst_iff, List.isChain_reverse, List.isChain_map]
  exact h

/-- However a chain is supplied and whatever names it has, its order takes every place once, and is
the one supplied or the only one that the names lead to from the only top. -/
theorem exists_isRootFirst (chain : CertificateChain) : ∃ order, IsRootFirst chain order := by
  have hreverse : chain.zipIdx.reverse.map (·.1) = chain.reverse := by
    rw [List.map_reverse, List.zipIdx_map_fst]
  have hplaces : chain.zipIdx.reverse.Perm chain.zipIdx := List.reverse_perm _
  by_cases hleaf : isLeafFirst chain = true
  · have hrootFirst := rootFirst_of_isLeafFirst hleaf
    refine ⟨chain.zipIdx.reverse, by rw [hrootFirst, hreverse], hplaces, .inl rfl, fun _ => rfl, ?_⟩
    rw [hrootFirst, List.reverse_reverse, hrootFirst]
  · have hnot : ¬ chain.IsChain fun c issuer => c.isIssuedBy issuer = true :=
      fun h => hleaf ((isLeafFirst_iff _).2 h)
    have hrootFirst : rootFirst chain = (sortedByNames? chain).getD chain.reverse := if_neg hleaf
    cases hsorted : sortedByNames? chain with
    | none =>
      rw [hsorted, Option.getD_none] at hrootFirst
      refine ⟨chain.zipIdx.reverse, by rw [hrootFirst, hreverse], hplaces, .inl rfl, fun _ => rfl,
        ?_⟩
      rw [hrootFirst, List.reverse_reverse, hrootFirst]
    | some sorted =>
      rw [hsorted, Option.getD_some] at hrootFirst
      obtain ⟨root, below, rfl, hperm, hleads⟩ := exists_leads hsorted
      refine ⟨root :: below, hrootFirst, hperm, .inr ⟨root, below, rfl, hleads⟩,
        fun h => absurd h hnot, ?_⟩
      rw [hrootFirst, rootFirst_of_isLeafFirst (isLeafFirst_reverse hleads.issued),
        List.reverse_reverse]

end AttestedKey.CertificateChain
