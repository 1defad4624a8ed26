import AttestedKey.Proofs.Delegation
import Mathlib.Data.List.Chain
import Mathlib.Data.List.Nodup

/-! The order a chain is supplied in. When no two certificates have the same subject and the names
link each to the one above it, the order from the root down is a matter of the names alone: every
permutation of the chain is put into it. The rule for chains that are leaf first and the sort by
names both find it, the one because nothing else is linked all the way down, the other because it
never has a second candidate. -/

namespace AttestedKey.CertificateChain

structure Linked (order : CertificateChain) : Prop where
  distinct : order.Pairwise fun a b => a.fields.subject.raw ≠ b.fields.subject.raw
  issued : order.IsChain fun parent c => c.isIssuedBy parent = true

/-- The names of an order leave no choice: it is linked, and its root names itself or no
certificate of it. -/
structure WellNamed (order : CertificateChain) : Prop extends Linked order where
  root : ∀ c ∈ order.head?, c.isSelfIssued = true ∨ ∀ p ∈ order, c.isIssuedBy p = false

theorem subject_eq_of_isIssuedBy {c p q : Certificate} (hp : c.isIssuedBy p = true)
    (hq : c.isIssuedBy q = true) : p.fields.subject.raw = q.fields.subject.raw := by
  simp only [Certificate.isIssuedBy, beq_iff_eq] at hp hq
  rw [← hp, ← hq]

theorem subject_eq_of_isSelfIssued {c p : Certificate} (hc : c.isSelfIssued = true)
    (hp : c.isIssuedBy p = true) : c.fields.subject.raw = p.fields.subject.raw := by
  simp only [Certificate.isSelfIssued, Certificate.isIssuedBy, beq_iff_eq] at hc hp
  rw [hc, hp]

/-- What is not at the top of a chain of issuers has an issuer just above it. -/
theorem exists_above {top c : Certificate} {below : CertificateChain}
    (hl : (top :: below).IsChain fun p x => x.isIssuedBy p = true) (hc : c ∈ below) :
    ∃ above p rest, top :: below = above ++ p :: c :: rest ∧ c.isIssuedBy p = true := by
  induction below generalizing top with
  | nil => cases hc
  | cons x below ih =>
    obtain ⟨hx, hrest⟩ := List.isChain_cons_cons.1 hl
    rcases List.mem_cons.1 hc with rfl | hc
    · exact ⟨[], top, below, rfl, hx⟩
    · obtain ⟨above, p, rest, he, hp⟩ := ih hrest hc
      exact ⟨top :: above, p, rest, by rw [he, List.cons_append], hp⟩

namespace Linked

variable {order : CertificateChain} {top c : Certificate} {below : CertificateChain}

theorem tail (h : Linked (top :: below)) : Linked below :=
  ⟨(List.pairwise_cons.1 h.distinct).2, h.issued.tail⟩

theorem nodup (h : Linked order) : order.Nodup :=
  h.distinct.imp fun hab he => hab (by rw [he])

theorem eq_of_subject (h : Linked order) {a b : Certificate} (ha : a ∈ order) (hb : b ∈ order)
    (he : a.fields.subject.raw = b.fields.subject.raw) : a = b := by
  have : Std.Symm fun a b : Certificate => a.fields.subject.raw ≠ b.fields.subject.raw :=
    ⟨fun _ _ hab => hab.symm⟩
  by_contra hne
  exact h.distinct.forall ha hb hne he

theorem exists_issuer (h : Linked (top :: below)) (hc : c ∈ below) :
    ∃ p ∈ top :: below, p.fields.subject.raw ≠ c.fields.subject.raw ∧ c.isIssuedBy p = true := by
  obtain ⟨above, p, rest, he, hp⟩ := exists_above h.issued hc
  have hd := h.distinct
  rw [he] at hd ⊢
  have hpc := (List.pairwise_cons.1 (List.pairwise_append.1 hd).2.1).1 c List.mem_cons_self
  exact ⟨p, by simp, hpc, hp⟩

/-- The only certificate below the top that the top has issued is the next one. -/
theorem head?_eq (h : Linked (top :: below)) (hc : c ∈ below) (hi : c.isIssuedBy top = true) :
    below.head? = some c := by
  cases below with
  | nil => cases hc
  | cons x below =>
    rcases List.mem_cons.1 hc with rfl | hc
    · rfl
    · obtain ⟨p, hp, -, hpc⟩ := h.tail.exists_issuer hc
      exact absurd (subject_eq_of_isIssuedBy hi hpc) ((List.pairwise_cons.1 h.distinct).1 p hp)

theorem isIssuedBy_top_iff {next : Certificate} (h : Linked (top :: next :: below))
    (hc : c ∈ next :: below) : c.isIssuedBy top = true ↔ c = next := by
  constructor
  · intro hi
    have := h.head?_eq hc hi
    exact (Option.some.inj this).symm
  · rintro rfl
    exact (List.isChain_cons_cons.1 h.issued).1

/-- Below the same top, certificates make a chain of issuers in one order only. -/
theorem unique {other : CertificateChain} (h : Linked (top :: below))
    (ho : (top :: other).IsChain fun p x => x.isIssuedBy p = true) (hp : other.Perm below) :
    other = below := by
  induction below generalizing top other with
  | nil => exact hp.eq_nil
  | cons x below ih =>
    cases other with
    | nil => cases hp.symm.eq_nil
    | cons y other =>
      obtain ⟨hy, ho⟩ := List.isChain_cons_cons.1 ho
      obtain rfl := (h.isIssuedBy_top_iff (hp.subset List.mem_cons_self)).1 hy
      rw [ih h.tail ho hp.cons_inv]

end Linked

theorem isLeafFirst_iff (chain : CertificateChain) :
    isLeafFirst chain = true ↔ chain.IsChain fun c p => c.isIssuedBy p = true := by
  induction chain with
  | nil => simp [isLeafFirst]
  | cons a chain ih =>
    cases chain with
    | nil => simp [isLeafFirst]
    | cons b rest => rw [isLeafFirst, Bool.and_eq_true, ih, List.isChain_cons_cons]

section

variable {placed : List Placed} {p : Placed} {f : Placed → Bool}

/-- Among different certificates, a test that only one of them passes finds its place. -/
theorem filter_eq_singleton (hn : (placed.map (·.1)).Nodup) (hp : p ∈ placed)
    (hf : ∀ x ∈ placed, f x = true ↔ x.1 = p.1) : placed.filter f = [p] := by
  have heq : placed.filter f = placed.filter (· == p) := by
    refine List.filter_congr fun x hx => ?_
    rw [Bool.eq_iff_iff, hf x hx, beq_iff_eq]
    exact ⟨List.inj_on_of_nodup_map hn hx hp, congrArg Prod.fst⟩
  rw [heq, List.filter_beq, List.count_eq_one_of_mem (hn.of_map _) hp, List.replicate_one]

theorem nodup_snd_without (hn : (placed.map (·.2)).Nodup) : ((without p placed).map (·.2)).Nodup :=
  hn.sublist (List.filter_sublist.map _)

/-- Where places differ, taking a certificate away by its place takes nothing else away. -/
theorem perm_cons_without (hn : (placed.map (·.2)).Nodup) (hp : p ∈ placed) :
    placed.Perm (p :: without p placed) := by
  have hfilter : without p placed = placed.filter (· != p) := by
    refine List.filter_congr fun x hx => ?_
    rw [Bool.eq_iff_iff, bne_iff_ne, bne_iff_ne]
    exact not_congr ⟨List.inj_on_of_nodup_map hn hx hp, congrArg Prod.snd⟩
  rw [hfilter, ← List.Nodup.erase_eq_filter (hn.of_map _)]
  exact List.perm_cons_erase hp

theorem map_fst_without (hn : (placed.map (·.2)).Nodup) (hp : p ∈ placed) {rest : CertificateChain}
    (hr : (placed.map (·.1)).Perm (p.1 :: rest)) : ((without p placed).map (·.1)).Perm rest :=
  (((perm_cons_without hn hp).map _).symm.trans hr).cons_inv

/-- The names lead from a parent through the certificates that are left in their one order. -/
theorem descend_eq {parent : Placed} {below : CertificateChain} (h : Linked (parent.1 :: below))
    {n : Nat} (hlen : below.length ≤ n) (hn : (placed.map (·.2)).Nodup)
    (hp : (placed.map (·.1)).Perm below) :
    ∃ l, descend n parent placed = some l ∧ l.map (·.1) = below := by
  induction below generalizing parent placed n with
  | nil =>
    obtain rfl : placed = [] := List.map_eq_nil_iff.1 hp.eq_nil
    exact ⟨[], by cases n <;> rfl, rfl⟩
  | cons next below ih =>
    obtain ⟨child, hchild, rfl⟩ := List.mem_map.1 (hp.symm.subset List.mem_cons_self)
    have hnodup := hp.nodup_iff.2 h.tail.nodup
    have honly : placed.filter (fun c => c.1.isIssuedBy parent.1) = [child] :=
      filter_eq_singleton hnodup hchild fun x hx =>
        h.isIssuedBy_top_iff (hp.subset (List.mem_map_of_mem hx))
    cases n with
    | zero => simp at hlen
    | succ n =>
      cases placed with
      | nil => cases hchild
      | cons x rest =>
        obtain ⟨l, hl, he⟩ := ih h.tail (Nat.le_of_succ_le_succ hlen) (nodup_snd_without hn)
          (map_fst_without hn hchild hp)
        refine ⟨child :: l, ?_, by rw [List.map_cons, he]⟩
        simp only [descend, honly, hl, Option.map_some]

end

namespace WellNamed

variable {order chain : CertificateChain} {root : Certificate} {below : CertificateChain}

/-- No other certificate has issued the root. -/
theorem root_eq_of_isIssuedBy (h : WellNamed (root :: below)) {p : Certificate}
    (hp : p ∈ root :: below) (hi : root.isIssuedBy p = true) : root = p := by
  rcases h.root root rfl with hs | hn
  · exact h.eq_of_subject List.mem_cons_self hp (subject_eq_of_isSelfIssued hs hi)
  · rw [hn p hp] at hi
    cases hi

/-- A permutation that is linked from its last certificate to its first is the order, leaf first. -/
theorem reverse_eq (h : WellNamed order) (hp : chain.Perm order) (hf : isLeafFirst chain = true) :
    chain.reverse = order := by
  have hl := List.isChain_reverse.2 ((isLeafFirst_iff chain).1 hf)
  have hr : chain.reverse.Perm order := chain.reverse_perm.trans hp
  generalize chain.reverse = other at hl hr
  cases order with
  | nil => exact hr.eq_nil
  | cons root below =>
    cases other with
    | nil => cases hr.symm.eq_nil
    | cons top rest =>
      have htop : root = top := by
        rcases List.mem_cons.1 (hr.symm.subset List.mem_cons_self) with he | hm
        · exact he
        · obtain ⟨above, p, tail, he, hi⟩ := exists_above hl hm
          have hpm : p ∈ top :: rest := by rw [he]; simp
          obtain rfl := h.root_eq_of_isIssuedBy (hr.subset hpm) hi
          have hnd := hr.nodup_iff.2 h.nodup
          rw [he] at hnd
          simp [List.nodup_append] at hnd
      subst htop
      rw [h.unique hl hr.cons_inv]

/-- Only the root passes the test for roots. -/
theorem isRootOf_iff (h : WellNamed (root :: below)) {placed : List Placed}
    (hn : (placed.map (·.2)).Nodup) (hp : (placed.map (·.1)).Perm (root :: below)) {c : Placed}
    (hc : c ∈ placed) : isRootOf placed c = true ↔ c.1 = root := by
  have hmem : ∀ x ∈ placed, x.1 ∈ root :: below := fun x hx => hp.subset (List.mem_map_of_mem hx)
  simp only [isRootOf, Bool.or_eq_true, Bool.not_eq_true', List.any_eq_false, Bool.and_eq_true,
    bne_iff_ne]
  constructor
  · rintro hroot
    rcases List.mem_cons.1 (hmem c hc) with he | hb
    · exact he
    · obtain ⟨p, hpm, hne, hi⟩ := h.exists_issuer hb
      rcases hroot with hs | hno
      · exact absurd (subject_eq_of_isSelfIssued hs hi).symm hne
      · obtain ⟨q, hq, rfl⟩ := List.mem_map.1 (hp.symm.subset hpm)
        refine absurd ⟨fun heq => hne ?_, hi⟩ (hno q hq)
        rw [List.inj_on_of_nodup_map hn hq hc heq]
  · rintro rfl
    rcases h.root c.1 rfl with hs | hno
    · exact Or.inl hs
    · refine Or.inr fun q hq hqi => ?_
      rw [hno q.1 (hmem q hq)] at hqi
      cases hqi.2

/-- Names lead from the root down in whatever order the chain is supplied. -/
theorem sortedByNames?_eq (h : WellNamed order) (hne : order ≠ []) (hp : chain.Perm order) :
    sortedByNames? chain = some order := by
  obtain ⟨root, below, rfl⟩ := List.exists_cons_of_ne_nil hne
  have hfst : (chain.zipIdx.map (·.1)).Perm (root :: below) := by
    rw [List.zipIdx_map_fst]
    exact hp
  have hsnd : (chain.zipIdx.map (·.2)).Nodup := by
    rw [List.zipIdx_map_snd]
    exact List.nodup_range'
  obtain ⟨top, htop, rfl⟩ := List.mem_map.1 (hfst.symm.subset List.mem_cons_self)
  have honly : chain.zipIdx.filter (isRootOf chain.zipIdx) = [top] :=
    filter_eq_singleton (hfst.nodup_iff.2 h.nodup) htop fun x hx => h.isRootOf_iff hsnd hfst hx
  have hlen : below.length ≤ chain.zipIdx.length := by
    have := hfst.length_eq
    rw [List.length_map, List.length_cons] at this
    omega
  obtain ⟨l, hl, he⟩ :=
    descend_eq h.toLinked hlen (nodup_snd_without hsnd) (map_fst_without hsnd htop hfst)
  simp only [sortedByNames?, honly, hl, Option.map_some, List.map_cons, he]

theorem rootFirst_eq (h : WellNamed order) (hp : chain.Perm order) : rootFirst chain = order := by
  unfold rootFirst
  split
  · next hf => exact h.reverse_eq hp hf
  · next hf =>
    have hne : order ≠ [] := by
      rintro rfl
      rw [hp.eq_nil] at hf
      exact hf rfl
    rw [h.sortedByNames?_eq hne hp, Option.getD_some]

end WellNamed

/-- However the certificates of a well-named order are supplied, they are put into that order, and
evaluated as if they had been supplied in it. -/
theorem evaluate_eq_of_perm {R : Type} [RevocationLookup R] [Cryptography]
    {order chain : CertificateChain} (h : WellNamed order) (hp : chain.Perm order)
    (context : TrustContext R) (time : Instant) :
    rootFirst chain = order ∧ evaluate chain context time = evaluate order context time := by
  have hc := h.rootFirst_eq hp
  have ho := h.rootFirst_eq (List.Perm.refl order)
  refine ⟨hc, ?_⟩
  unfold evaluate
  rw [hc, ho]

theorem JunkChain.reads_names : Reads JunkChain.root fun root =>
    root.isSelfIssued && Reads JunkChain.intermediate fun mid =>
      mid.isIssuedBy root && root.fields.subject.raw != mid.fields.subject.raw &&
        Reads JunkChain.leaf fun leaf =>
        leaf.isIssuedBy mid && root.fields.subject.raw != leaf.fields.subject.raw &&
          mid.fields.subject.raw != leaf.fields.subject.raw := by
  decide +kernel

/-- Three certificates that are neither leaf first nor root first. -/
theorem evaluate_rotated :
    ∃ leaf mid root : Certificate,
      Certificate.ofDer JunkChain.leaf = .ok leaf ∧
        Certificate.ofDer JunkChain.intermediate = .ok mid ∧
      Certificate.ofDer JunkChain.root = .ok root ∧
      WellNamed [root, mid, leaf] ∧ [mid, leaf, root].Perm [root, mid, leaf] ∧
      rootFirst [mid, leaf, root] = [root, mid, leaf] ∧
      evaluate [mid, leaf, root] { revocation := RevocationStore.empty } JunkChain.time =
        evaluate [root, mid, leaf] { revocation := RevocationStore.empty } JunkChain.time := by
  obtain ⟨root, hroot⟩ := JunkChain.reads_root.exists_ofDer
  obtain ⟨mid, hmid⟩ := JunkChain.reads_intermediate.exists_ofDer
  obtain ⟨leaf, hleaf⟩ := JunkChain.reads_leaf.exists_ofDer
  have hr := JunkChain.reads_names.of_ofDer hroot
  simp only [Bool.and_eq_true, decide_eq_true_eq] at hr
  have hm := hr.2.of_ofDer hmid
  simp only [Bool.and_eq_true, decide_eq_true_eq] at hm
  have hl := hm.2.of_ofDer hleaf
  simp only [Bool.and_eq_true, bne_iff_ne] at hm hl
  have hnamed : WellNamed [root, mid, leaf] := by
    refine ⟨⟨?_, ?_⟩, ?_⟩
    · simp [hm.1.2, hl.1.2, hl.2]
    · simp [hm.1.1, hl.1.1]
    · simp [hr.1]
  have hperm : ([mid, leaf] ++ [root]).Perm ([root] ++ [mid, leaf]) := List.perm_append_comm
  exact ⟨leaf, mid, root, hleaf, hmid, hroot, hnamed, hperm, evaluate_eq_of_perm hnamed hperm _ _⟩

end AttestedKey.CertificateChain
