/-! Finite sets of 64 bit integers, kept as increasing lists, so that equal sets are equal
values. -/

namespace AttestedKey

structure NumberSet where
  toList : List Int64
  increasing : toList.Pairwise (· < ·)
  deriving DecidableEq

namespace NumberSet

def insertSorted (n : Int64) : List Int64 → List Int64
  | [] => [n]
  | m :: ms => if n < m then n :: m :: ms else if n = m then m :: ms else m :: insertSorted n ms

theorem mem_insertSorted {n k : Int64} {ms : List Int64} :
    k ∈ insertSorted n ms ↔ k = n ∨ k ∈ ms := by
  induction ms with
  | nil => simp [insertSorted]
  | cons m ms ih =>
    unfold insertSorted
    split
    · simp
    · split
      · next h => subst h; simp
      · simp only [List.mem_cons, ih]
        constructor
        · rintro (h | h | h) <;> simp [h]
        · rintro (h | h | h) <;> simp [h]

theorem pairwise_insertSorted {n : Int64} {ms : List Int64} (h : ms.Pairwise (· < ·)) :
    (insertSorted n ms).Pairwise (· < ·) := by
  induction ms with
  | nil => simp [insertSorted]
  | cons m ms ih =>
    obtain ⟨hm, hs⟩ := List.pairwise_cons.1 h
    unfold insertSorted
    split
    · next hn =>
      refine List.pairwise_cons.2 ⟨fun k hk => ?_, h⟩
      rcases List.mem_cons.1 hk with rfl | hk
      · exact hn
      · have := hm k hk
        simp only [Int64.lt_iff_toInt_lt] at *
        omega
    · split
      · exact h
      · next hlt hne =>
        refine List.pairwise_cons.2 ⟨fun k hk => ?_, ih hs⟩
        rcases mem_insertSorted.1 hk with rfl | hk
        · have : ¬ k.toInt = m.toInt := fun h => hne (Int64.toInt_inj.1 h)
          simp only [Int64.lt_iff_toInt_lt] at *
          omega
        · exact hm k hk

def empty : NumberSet := ⟨[], .nil⟩

def insert (n : Int64) (s : NumberSet) : NumberSet :=
  ⟨insertSorted n s.toList, pairwise_insertSorted s.increasing⟩

def ofList (ns : List Int64) : NumberSet := ns.foldl (fun s n => s.insert n) empty

def contains (s : NumberSet) (n : Int64) : Bool := s.toList.contains n

@[simp] theorem mem_toList_insert {s : NumberSet} {n k : Int64} :
    k ∈ (s.insert n).toList ↔ k = n ∨ k ∈ s.toList := mem_insertSorted

end NumberSet

end AttestedKey
