import AttestedKey.Octets

/-! Finite maps from curve numbers to octets, kept by increasing number, so that equal maps are
equal values. -/

namespace AttestedKey

structure ChainMap where
  toList : List (Int64 × Octets)
  increasing : toList.Pairwise fun a b => a.1 < b.1
  deriving DecidableEq

namespace ChainMap

def insertSorted (curve : Int64) (chain : Octets) : List (Int64 × Octets) → List (Int64 × Octets)
  | [] => [(curve, chain)]
  | e :: es =>
    if curve < e.1 then (curve, chain) :: e :: es
    else if curve = e.1 then (curve, chain) :: es
    else e :: insertSorted curve chain es

theorem fst_mem_insertSorted {curve : Int64} {chain : Octets} {es : List (Int64 × Octets)}
    {e : Int64 × Octets} (h : e ∈ insertSorted curve chain es) : e.1 = curve ∨ e ∈ es := by
  induction es with
  | nil => simp_all [insertSorted]
  | cons d ds ih =>
    unfold insertSorted at h
    split at h
    · rcases List.mem_cons.1 h with rfl | h
      · exact .inl rfl
      · exact .inr h
    · split at h
      · rcases List.mem_cons.1 h with rfl | h
        · exact .inl rfl
        · exact .inr (List.mem_cons_of_mem _ h)
      · rcases List.mem_cons.1 h with rfl | h
        · exact .inr (List.mem_cons_self ..)
        · exact (ih h).imp_right (List.mem_cons_of_mem _)

theorem pairwise_insertSorted {curve : Int64} {chain : Octets} {es : List (Int64 × Octets)}
    (h : es.Pairwise fun a b => a.1 < b.1) :
    (insertSorted curve chain es).Pairwise fun a b => a.1 < b.1 := by
  induction es with
  | nil => simp [insertSorted]
  | cons d ds ih =>
    obtain ⟨hd, hs⟩ := List.pairwise_cons.1 h
    unfold insertSorted
    split
    · next hlt =>
      refine List.pairwise_cons.2 ⟨fun e he => ?_, h⟩
      rcases List.mem_cons.1 he with rfl | he
      · exact hlt
      · have := hd e he
        simp only [Int64.lt_iff_toInt_lt] at *
        omega
    · split
      · next heq => exact List.pairwise_cons.2 ⟨fun e he => heq ▸ hd e he, hs⟩
      · next hlt hne =>
        refine List.pairwise_cons.2 ⟨fun e he => ?_, ih hs⟩
        rcases fst_mem_insertSorted he with he | he
        · have : ¬ curve.toInt = d.1.toInt := fun h => hne (Int64.toInt_inj.1 h)
          rw [he]
          simp only [Int64.lt_iff_toInt_lt] at *
          omega
        · exact hd e he

def empty : ChainMap := ⟨[], .nil⟩

def insert (m : ChainMap) (curve : Int64) (chain : Octets) : ChainMap :=
  ⟨insertSorted curve chain m.toList, pairwise_insertSorted m.increasing⟩

/-- Of entries for the same curve the last counts. -/
def ofList (es : List (Int64 × Octets)) : ChainMap := es.foldl (fun m e => m.insert e.1 e.2) empty

def get? (m : ChainMap) (curve : Int64) : Option Octets :=
  (m.toList.find? fun e => e.1 == curve).map (·.2)

end ChainMap

end AttestedKey
