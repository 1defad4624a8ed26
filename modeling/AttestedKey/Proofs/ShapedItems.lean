import AttestedKey.Proofs.Values
import AttestedKey.Provisioning.Error

/-! Which data items are taken where one of a certain shape is asked for. The name that an error
would give the item never matters to that, so the lemmas say it for all names. -/

namespace AttestedKey.Provisioning

open Cbor (Item)

variable {what : String} {x : Item}

theorem item_eq_ok_iff {bs : Octets} : item what bs = .ok x ↔ Cbor.read bs = some (x, []) := by
  unfold item
  cases Cbor.read bs with
  | none => simp
  | some p =>
    obtain ⟨y, rest⟩ := p
    cases rest <;> simp

theorem required_eq_ok_iff {α : Type} {kind : String} {v : Option α} {a : α} :
    required what kind v = .ok a ↔ v = some a := by
  cases v <;> simp [required]

theorem array_eq_ok_iff {xs : List Item} : array what x = .ok xs ↔ x = .array xs := by
  unfold array
  rw [required_eq_ok_iff]
  cases x <;> simp [Item.array?]

theorem octets_eq_ok_iff {bs : Octets} : octets what x = .ok bs ↔ x = .bytes bs := by
  unfold octets
  rw [required_eq_ok_iff]
  cases x <;> simp [Item.bytes?]

theorem number_eq_ok_iff {n : Int64} : number what x = .ok n ↔ x.int? = some n.toInt := by
  unfold number
  rw [required_eq_ok_iff, Option.bind_eq_some_iff]
  simp only [int64?_eq_some_iff, exists_eq_right]

theorem isSome_map?_iff : x.map?.isSome ↔ ∃ es, x = .map es := by
  cases x <;> simp [Item.map?]

theorem nth_eq_ok_iff {i : Nat} {xs : List Item} : nth what i xs = .ok x ↔ xs[i]? = some x := by
  unfold nth
  cases xs[i]? <;> simp

end AttestedKey.Provisioning
