import AttestedKey.Chain.Basic
import AttestedKey.Proofs.ElementPrefix
import AttestedKey.Proofs.Entries

/-! Chains as their certificates one behind the other. What is accepted as a certificate is the
front of whatever its octets are the front of, so octets fall into certificates in one way at most.
A chain is read off its octets exactly, and other octets are refused for the first of them that
begin no certificate. -/

namespace AttestedKey.CertificateChain

def joined (chain : CertificateChain) : Octets := chain.flatMap Certificate.der

@[simp]
theorem joined_nil : joined [] = [] := rfl

@[simp]
theorem joined_cons (c : Certificate) (chain : CertificateChain) :
    joined (c :: chain) = c.der ++ joined chain := rfl

theorem joined_append (front chain : CertificateChain) :
    joined (front ++ chain) = joined front ++ joined chain :=
  List.flatMap_append

/-- Octets behind `n` certificates that begin no certificate, and why they do not. -/
inductive Faulty (n : Nat) : Octets → ChainError → Prop
  | unreadable {bs : Octets} (hne : bs ≠ []) (hread : CertificateFields.read bs = none) :
      Faulty n bs (.syntaxError s!"certificate {n}")
  | refused {bs der rest : Octets} {fields : CertificateFields} {e : ChainError}
      (hread : CertificateFields.read bs = some (fields, der, rest))
        (hrefused : Certificate.ofDer der = .error e) :
      Faulty n bs e

variable {chain front : CertificateChain} {c : Certificate} {bs rest : Octets} {e : ChainError}
    {fuel n : Nat}

theorem Faulty.ne_nil (h : Faulty n bs e) : bs ≠ [] := by
  cases h with
  | unreadable hne _ => exact hne
  | refused hread _ =>
    rintro rfl
    cases hread

theorem ofDerFrom_nil (fuel n : Nat) : ofDerFrom fuel n [] = .ok [] := by
  cases fuel <;> rfl

/-- A round that takes a certificate. -/
theorem ofDerFrom_append (h : Certificate.ofDer c.der = .ok c) (fuel n : Nat) (rest : Octets) :
    ofDerFrom (fuel + 1) n (c.der ++ rest) = (ofDerFrom fuel (n + 1) rest).map (c :: ·) := by
  obtain ⟨b, bs, hbs⟩ :=
    List.exists_cons_of_ne_nil (List.append_ne_nil_of_left_ne_nil (Certificate.der_ne_nil h) rest)
  have hread := Certificate.read_append h rest
  rw [hbs] at hread ⊢
  simp only [ofDerFrom, hread, h]
  rfl

/-- A round that takes none. -/
theorem ofDerFrom_of_faulty (h : Faulty n bs e) (hfuel : bs.length ≤ fuel) :
    ofDerFrom fuel n bs = .error e := by
  obtain ⟨b, bs, rfl⟩ := List.exists_cons_of_ne_nil h.ne_nil
  obtain ⟨fuel, rfl⟩ :=
    Nat.exists_eq_add_one_of_ne_zero (Nat.ne_of_gt (Nat.lt_of_lt_of_le (Nat.succ_pos _) hfuel))
  cases h with
  | unreadable _ hread => simp only [ofDerFrom, hread]
  | refused hread hrefused =>
    simp only [ofDerFrom, hread, hrefused]
    rfl

/-- The rounds that take the certificates of a front. -/
theorem ofDerFrom_joined (h : ∀ c ∈ front, Certificate.ofDer c.der = .ok c) (fuel n : Nat)
    (rest : Octets) :
    ofDerFrom (front.length + fuel) n (joined front ++ rest) =
      (ofDerFrom fuel (n + front.length) rest).map (front ++ ·) := by
  induction front generalizing n with
  | nil =>
    simp only [List.length_nil, Nat.zero_add, joined_nil, List.nil_append, Nat.add_zero]
    cases ofDerFrom fuel n rest <;> rfl
  | cons c front ih =>
    obtain ⟨hc, hfront⟩ := List.forall_mem_cons.1 h
    have hfuel : (c :: front).length + fuel = front.length + fuel + 1 := by
      simp only [List.length_cons]; omega
    have hn : n + 1 + front.length = n + (c :: front).length := by
      simp only [List.length_cons]; omega
    rw [hfuel, joined_cons, List.append_assoc, ofDerFrom_append hc, ih hfront, hn]
    cases ofDerFrom fuel (n + (c :: front).length) rest <;> rfl

/-- All octets are certificates up to where they end or begin no certificate. -/
theorem exists_front (n : Nat) (bs : Octets) :
    ∃ front rest, (∀ c ∈ front, Certificate.ofDer c.der = .ok c) ∧
    bs = joined front ++ rest ∧ (rest = [] ∨ ∃ e, Faulty (n + front.length) rest e) := by
  induction hlen : bs.length using Nat.strong_induction_on generalizing n bs with
  | h len ih =>
    by_cases hne : bs = []
    · exact ⟨[], [], by simp, hne, .inl rfl⟩
    cases hread : CertificateFields.read bs with
    | none => exact ⟨[], bs, by simp, rfl, .inr ⟨_, .unreadable hne hread⟩⟩
    | some p =>
      obtain ⟨fields, der, behind⟩ := p
      cases hder : Certificate.ofDer der with
      | error e => exact ⟨[], bs, by simp, rfl, .inr ⟨e, .refused hread hder⟩⟩
      | ok c =>
        obtain ⟨-, rfl, -⟩ := Certificate.ofDer_eq_ok_iff.1 hder
        obtain ⟨hbs, hpos, -⟩ := CertificateFields.read_eq_some hread
        have hshorter : behind.length < len := by
          have := List.length_pos_iff.2 hpos
          rw [← hlen, hbs, List.length_append]
          omega
        obtain ⟨front, rest, hfront, rfl, hrest⟩ := ih _ hshorter (n + 1) behind rfl
        refine ⟨c :: front, rest, List.forall_mem_cons.2 ⟨hder, hfront⟩, ?_, ?_⟩
        · rw [hbs, joined_cons, List.append_assoc]
        · rwa [List.length_cons, Nat.add_comm front.length 1, ← Nat.add_assoc]

/-- What is read of certificates with octets behind them. -/
theorem ofDerFrom_front (h : ∀ c ∈ front, Certificate.ofDer c.der = .ok c)
    (hfuel : (joined front ++ rest).length ≤ fuel) : ∃ left, rest.length ≤ left ∧
      ofDerFrom fuel n (joined front ++ rest) =
        (ofDerFrom left (n + front.length) rest).map (front ++ ·) := by
  -- every certificate has an octet
  have hle : front.length ≤ (joined front).length :=
    length_le_length_flatMap fun c hc => Certificate.der_ne_nil (h c hc)
  rw [List.length_append] at hfuel
  refine ⟨fuel - front.length, by omega, ?_⟩
  rw [← ofDerFrom_joined h, Nat.add_sub_cancel' (by omega)]

theorem ofDerFrom_joined_eq_ok (h : ∀ c ∈ front, Certificate.ofDer c.der = .ok c)
    (hfuel : (joined front).length ≤ fuel) : ofDerFrom fuel n (joined front) = .ok front := by
  rw [← List.append_nil (joined front)] at hfuel ⊢
  obtain ⟨left, -, heq⟩ := ofDerFrom_front (n := n) h hfuel
  rw [ofDerFrom_nil] at heq
  exact heq.trans (congrArg Except.ok (List.append_nil front))

theorem ofDerFrom_eq_error (h : ∀ c ∈ front, Certificate.ofDer c.der = .ok c)
    (hrest : Faulty (n + front.length) rest e) (hfuel : (joined front ++ rest).length ≤ fuel) :
    ofDerFrom fuel n (joined front ++ rest) = .error e := by
  obtain ⟨left, hleft, heq⟩ := ofDerFrom_front (n := n) h hfuel
  rw [heq, ofDerFrom_of_faulty hrest hleft]
  rfl

theorem ofDerFrom_eq_ok_iff (hfuel : bs.length ≤ fuel) : ofDerFrom fuel n bs = .ok chain ↔
    (∀ c ∈ chain, Certificate.ofDer c.der = .ok c) ∧ joined chain = bs := by
  constructor
  · intro hok
    obtain ⟨front, rest, hfront, rfl, rfl | ⟨e, hrest⟩⟩ := exists_front n bs
    · rw [List.append_nil] at hok hfuel ⊢
      rw [ofDerFrom_joined_eq_ok hfront hfuel] at hok
      cases hok
      exact ⟨hfront, rfl⟩
    · rw [ofDerFrom_eq_error hfront hrest hfuel] at hok
      cases hok
  · rintro ⟨hread, rfl⟩
    exact ofDerFrom_joined_eq_ok hread hfuel

theorem ofDerFrom_eq_error_iff (hfuel : bs.length ≤ fuel) : ofDerFrom fuel n bs = .error e ↔
    ∃ front rest, (∀ c ∈ front, Certificate.ofDer c.der = .ok c) ∧ bs = joined front ++ rest ∧
      Faulty (n + front.length) rest e := by
  constructor
  · intro herror
    obtain ⟨front, rest, hfront, rfl, rfl | ⟨e', hrest⟩⟩ := exists_front n bs
    · rw [List.append_nil] at herror hfuel
      rw [ofDerFrom_joined_eq_ok hfront hfuel] at herror
      cases herror
    · rw [ofDerFrom_eq_error hfront hrest hfuel] at herror
      cases herror
      exact ⟨front, rest, hfront, rfl, hrest⟩
  · rintro ⟨front, rest, hfront, rfl, hrest⟩
    exact ofDerFrom_eq_error hfront hrest hfuel

theorem ofDer_eq_ok_iff : ofDer bs = .ok chain ↔
    chain ≠ [] ∧ (∀ c ∈ chain, Certificate.ofDer c.der = .ok c) ∧ joined chain = bs := by
  unfold ofDer
  rw [bind_eq_ok_iff]
  constructor
  · rintro ⟨chain', hfrom, h⟩
    cases chain' with
    | nil => cases h
    | cons c chain' =>
      cases h
      exact ⟨List.cons_ne_nil _ _, (ofDerFrom_eq_ok_iff le_rfl).1 hfrom⟩
  · rintro ⟨hne, h⟩
    refine ⟨chain, (ofDerFrom_eq_ok_iff le_rfl).2 h, ?_⟩
    cases chain with
    | nil => exact absurd rfl hne
    | cons c chain => rfl

theorem ofDer_eq_error_iff :
    ofDer bs = .error e ↔ (bs = [] ∧ e = .syntaxError "no certificate found") ∨
    ∃ front rest, (∀ c ∈ front, Certificate.ofDer c.der = .ok c) ∧ bs = joined front ++ rest ∧
      Faulty front.length rest e := by
  have herror := ofDerFrom_eq_error_iff (n := 0) (e := e) (le_refl bs.length)
  simp only [Nat.zero_add] at herror
  rw [← herror]
  unfold ofDer
  cases hfrom : ofDerFrom bs.length 0 bs with
  | error e' =>
    have hne : bs ≠ [] := by
      rintro rfl
      cases hfrom
    exact ⟨fun h => .inr h, fun h => h.elim (fun h => absurd h.1 hne) id⟩
  | ok chain =>
    obtain ⟨hread, rfl⟩ := (ofDerFrom_eq_ok_iff le_rfl).1 hfrom
    cases chain with
    | nil =>
      refine ⟨fun h => .inl ⟨rfl, (Except.error.inj h).symm⟩, ?_⟩
      rintro (⟨-, rfl⟩ | h)
      · rfl
      · cases h
    | cons c chain =>
      have hpos := Certificate.der_ne_nil (hread c List.mem_cons_self)
      refine ⟨fun h => (by cases h), ?_⟩
      rintro (⟨hnil, -⟩ | h)
      · exact absurd (List.append_eq_nil_iff.1 hnil).1 hpos
      · cases h

/-- Octets that are accepted one by one are the octets of certificates. -/
theorem exists_chain {parts : List Octets}
    (h : ∀ part ∈ parts, ∃ c, Certificate.ofDer part = .ok c) :
    ∃ chain : CertificateChain, (∀ c ∈ chain, Certificate.ofDer c.der = .ok c) ∧
      chain.map Certificate.der = parts := by
  refine exists_map_eq fun part hpart => ?_
  obtain ⟨c, hc⟩ := h part hpart
  obtain ⟨-, rfl, -⟩ := Certificate.ofDer_eq_ok_iff.1 hc
  exact ⟨c, hc, rfl⟩

/-- What comes of octets that are taken for certificates one behind the other. -/
structure IsSplitting (bs : Octets) : Prop where
  ok_iff : ∀ chain, ofDer bs = .ok chain ↔
    chain ≠ [] ∧ (∀ c ∈ chain, Certificate.ofDer c.der = .ok c) ∧ joined chain = bs
  accepts_iff : (∃ chain, ofDer bs = .ok chain) ↔
    ∃ parts : List Octets, parts ≠ [] ∧ (∀ part ∈ parts, ∃ c, Certificate.ofDer part = .ok c) ∧
      parts.flatten = bs
  unique : ∀ chain, ofDer bs = .ok chain → ∀ parts : List Octets,
    (∀ part ∈ parts, ∃ c, Certificate.ofDer part = .ok c) → parts.flatten = bs →
      parts = chain.map Certificate.der
  error_iff : ∀ e, ofDer bs = .error e ↔ (bs = [] ∧ e = .syntaxError "no certificate found") ∨
    ∃ front rest, (∀ c ∈ front, Certificate.ofDer c.der = .ok c) ∧ bs = joined front ++ rest ∧
      Faulty front.length rest e
  behind : ∀ front rest, (∀ c ∈ front, Certificate.ofDer c.der = .ok c) →
    bs = joined front ++ rest → rest ≠ [] →
    ∀ chain, ofDer bs = .ok chain ↔ ∃ back, ofDer rest = .ok back ∧ front ++ back = chain
  /-- Octets that no certificate begins with are an error wherever they stand, and whatever is
  behind them. -/
  stray : ∀ front rest, (∀ c ∈ front, Certificate.ofDer c.der = .ok c) →
    bs = joined front ++ rest → rest ≠ [] →
    (∀ part behind, rest = part ++ behind → ∀ c, Certificate.ofDer part ≠ .ok c) →
    ∃ e, ofDer bs = .error e
  /-- Rounds beyond the number of the octets are never needed. -/
  ends : ∀ fuel, bs.length ≤ fuel → ofDerFrom fuel 0 bs = ofDerFrom bs.length 0 bs

theorem unique_parts (hok : ofDer bs = .ok chain) {parts : List Octets}
    (hparts : ∀ part ∈ parts, ∃ c, Certificate.ofDer part = .ok c) (hbs : parts.flatten = bs) :
    parts = chain.map Certificate.der := by
  obtain ⟨hne, hread, rfl⟩ := ofDer_eq_ok_iff.1 hok
  obtain ⟨chain', hread', rfl⟩ := exists_chain hparts
  have hfrom := (ofDerFrom_eq_ok_iff (n := 0) le_rfl).2 ⟨hread, rfl⟩
  have hfrom' := (ofDerFrom_eq_ok_iff (n := 0) le_rfl).2 ⟨hread', hbs⟩
  rw [Except.ok.inj (hfrom.symm.trans hfrom')]

theorem ofDer_joined_append (hfront : ∀ c ∈ front, Certificate.ofDer c.der = .ok c)
    (hne : rest ≠ []) :
    ofDer (joined front ++ rest) = .ok chain ↔
      ∃ back, ofDer rest = .ok back ∧ front ++ back = chain := by
  constructor
  · intro hok
    obtain ⟨back, rest', hback, rfl, rfl | ⟨e, hrest⟩⟩ := exists_front front.length rest
    · rw [List.append_nil] at hne hok ⊢
      have hnil : back ≠ [] := fun h => hne (by rw [h, joined_nil])
      refine ⟨back, ofDer_eq_ok_iff.2 ⟨hnil, hback, rfl⟩, ?_⟩
      rw [← joined_append] at hok
      have hread : ∀ c ∈ front ++ back, Certificate.ofDer c.der = .ok c :=
        List.forall_mem_append.2 ⟨hfront, hback⟩
      have hall := ofDer_eq_ok_iff.2 ⟨List.append_ne_nil_of_right_ne_nil front hnil, hread, rfl⟩
      exact Except.ok.inj (hall.symm.trans hok)
    · rw [← List.append_assoc, ← joined_append] at hok
      rw [← List.length_append] at hrest
      have herror := ofDer_eq_error_iff.2
        (.inr ⟨front ++ back, rest', List.forall_mem_append.2 ⟨hfront, hback⟩, rfl, hrest⟩)
      cases herror.symm.trans hok
  · rintro ⟨back, hback, rfl⟩
    obtain ⟨hnil, hread, rfl⟩ := ofDer_eq_ok_iff.1 hback
    exact ofDer_eq_ok_iff.2 ⟨List.append_ne_nil_of_right_ne_nil front hnil,
      List.forall_mem_append.2 ⟨hfront, hread⟩, joined_append front back⟩

theorem exists_error_of_stray (hfront : ∀ c ∈ front, Certificate.ofDer c.der = .ok c)
    (hne : rest ≠ [])
    (hstray : ∀ part behind, rest = part ++ behind → ∀ c, Certificate.ofDer part ≠ .ok c) :
    ∃ e, ofDer (joined front ++ rest) = .error e := by
  cases hof : ofDer (joined front ++ rest) with
  | error e => exact ⟨e, rfl⟩
  | ok chain =>
    obtain ⟨back, hback, -⟩ := (ofDer_joined_append hfront hne).1 hof
    obtain ⟨hnil, hread, rfl⟩ := ofDer_eq_ok_iff.1 hback
    obtain ⟨c, back, rfl⟩ := List.exists_cons_of_ne_nil hnil
    exact absurd (hread c List.mem_cons_self) (hstray c.der (joined back) rfl c)

/-- Octets are split into certificates exactly. -/
theorem ofDer_isSplitting (bs : Octets) : IsSplitting bs where
  ok_iff _ := ofDer_eq_ok_iff
  accepts_iff := by
    constructor
    · rintro ⟨chain, hok⟩
      obtain ⟨hne, hread, rfl⟩ := ofDer_eq_ok_iff.1 hok
      refine ⟨chain.map Certificate.der, fun h => hne (List.map_eq_nil_iff.1 h),
        fun part hpart => ?_, rfl⟩
      obtain ⟨c, hc, rfl⟩ := List.mem_map.1 hpart
      exact ⟨c, hread c hc⟩
    · rintro ⟨parts, hne, hparts, rfl⟩
      obtain ⟨chain, hread, rfl⟩ := exists_chain hparts
      exact ⟨chain, ofDer_eq_ok_iff.2 ⟨fun h => hne (List.map_eq_nil_iff.2 h), hread, rfl⟩⟩
  unique _ hok _ hparts hbs := unique_parts hok hparts hbs
  error_iff _ := ofDer_eq_error_iff
  behind _ _ hfront hbs hne _ := hbs ▸ ofDer_joined_append hfront hne
  stray _ _ hfront hbs hne hstray := hbs ▸ exists_error_of_stray hfront hne hstray
  ends fuel hfuel := by
    cases hfrom : ofDerFrom bs.length 0 bs with
    | ok chain => exact (ofDerFrom_eq_ok_iff hfuel).2 ((ofDerFrom_eq_ok_iff le_rfl).1 hfrom)
    | error e => exact (ofDerFrom_eq_error_iff hfuel).2 ((ofDerFrom_eq_error_iff le_rfl).1 hfrom)

end AttestedKey.CertificateChain
