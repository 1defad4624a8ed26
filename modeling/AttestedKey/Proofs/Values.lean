import AttestedKey.Proofs.Entries
import AttestedKey.Proofs.Numbers
import AttestedKey.Record.Element

/-! What is read as a value of a given kind: for each kind of value, the objects and the items that
are it. -/

namespace AttestedKey

theorem int64?_eq_some_iff {n : Int} {x : Int64} : int64? n = some x ↔ n = x.toInt := by
  unfold int64?
  constructor
  · intro h
    split at h
    · next hn =>
      cases h
      rw [Int64.toInt_ofInt_of_le (by simpa using hn.1) (by simpa using hn.2)]
    · cases h
  · rintro rfl
    have hlo := x.le_toInt
    have hhi := x.toInt_lt
    rw [if_pos ⟨by omega, by omega⟩, Int64.ofInt_toInt]

theorem uint64?_eq_some_iff {n : Int} {x : UInt64} : uint64? n = some x ↔ n = x.toNat := by
  unfold uint64?
  constructor
  · intro h
    split at h
    · next hn =>
      cases h
      rw [UInt64.toNat_ofNat']
      omega
    · cases h
  · rintro rfl
    have hhi := x.toNat_lt
    rw [if_pos ⟨by omega, by omega⟩, Int.toNat_natCast, UInt64.ofNat_toNat]

theorem asInt64_eq_ok_iff {what : String} {n : Int} {x : Int64} :
    asInt64 what n = .ok x ↔ n = x.toInt := by
  rw [← int64?_eq_some_iff]
  unfold asInt64
  cases int64? n <;> simp

theorem asUInt64_eq_ok_iff {what : String} {n : Int} {x : UInt64} :
    asUInt64 what n = .ok x ↔ n = x.toNat := by
  rw [← uint64?_eq_some_iff]
  unfold asUInt64
  cases uint64? n <;> simp

theorem readWhole_eq_ok_iff {α : Type} {reader : Reader α} {what : String} {bs : Octets} {x : α} :
    readWhole reader what bs = .ok x ↔ reader bs = some (x, []) := by
  unfold readWhole
  cases reader bs with
  | none => simp
  | some p =>
    obtain ⟨y, rest⟩ := p
    cases rest <;> simp

namespace Ber.Object

variable {what : String} {x : Object}

/-- An INTEGER of at most 16 octets or an ENUMERATED of the number. -/
def IsInt (x : Object) (n : Int64) : Prop :=
  (∃ content, x = integer content ∧ 1 ≤ content.length ∧ content.length ≤ 16 ∧
    content.toInt = n.toInt) ∨
    ∃ m, x = enumerated m ∧ (m : Int) = n.toInt

/-- An INTEGER is its value in two's complement. -/
theorem asNumber_integer (what : String) (content : Octets) :
    (integer content).asNumber what =
      if 1 ≤ content.length ∧ content.length ≤ 16 then .ok content.toInt
      else .error (.malformed s!"{what}: integer of {content.length} bytes") := by
  by_cases hlength : 1 ≤ content.length ∧ content.length ≤ 16
  · rw [asNumber, if_pos hlength, if_pos hlength, Octets.toInt_toInt128 hlength.2]
  · rw [asNumber, if_neg hlength, if_neg hlength]

theorem asInt_eq_ok_iff {n : Int64} : x.asInt what = .ok n ↔ x.IsInt n := by
  unfold asInt IsInt
  simp only [bind_eq_ok_iff, asInt64_eq_ok_iff]
  constructor
  · rintro ⟨m, hm, rfl⟩
    cases x with
    | integer content =>
      rw [asNumber_integer] at hm
      split at hm
      · next hlength => exact .inl ⟨content, rfl, hlength.1, hlength.2, Except.ok.inj hm⟩
      · cases hm
    | enumerated m => exact .inr ⟨m, rfl, Except.ok.inj hm⟩
    | _ => cases hm
  · rintro (⟨content, rfl, hlo, hhi, hn⟩ | ⟨m, rfl, hn⟩)
    · exact ⟨content.toInt, (asNumber_integer what content).trans (if_pos ⟨hlo, hhi⟩), hn⟩
    · exact ⟨m, rfl, hn⟩

theorem asText_eq_ok_iff {s : String} : x.asText what = .ok s ↔ ∃ t, x = characters t s := by
  cases x <;> simp [asText]

theorem asOctets_eq_ok_iff {b : Octets} : x.asOctets what = .ok b ↔ x = octetString b := by
  cases x <;> simp [asOctets]

theorem asSequence_eq_ok_iff {xs : List Object} : x.asSequence what = .ok xs ↔ x = sequence xs := by
  cases x <;> simp [asSequence]

theorem context?_eq_some_iff {n : Nat} {content : Octets} :
    x.context? = some (n, content) ↔ x = tagged .context n content := by
  unfold context?
  split
  · simp
  · next h => exact ⟨fun hnone => (by cases hnone), fun hx => absurd hx (h n content)⟩

end Ber.Object

namespace Cbor.Item

variable {what : String} {x : Item}

theorem required_eq_ok_iff {α : Type} {kind : String} {v : Option α} {a : α} :
    required what kind v = .ok a ↔ v = some a := by
  cases v <;> simp [required]

theorem toOption_required {α : Type} {kind : String} {v : Option α} :
    (required what kind v).toOption = v := by
  cases v <;> rfl

theorem asInt_eq_ok_iff {n : Int64} : x.asInt what = .ok n ↔ x.int? = some n.toInt := by
  unfold asInt asNumber
  simp only [bind_eq_ok_iff, required_eq_ok_iff, asInt64_eq_ok_iff]
  exact ⟨fun ⟨_, h, hn⟩ => hn ▸ h, fun h => ⟨_, h, rfl⟩⟩

theorem asOctets_eq_ok_iff {b : Octets} : x.asOctets what = .ok b ↔ x = .bytes b := by
  unfold asOctets
  rw [required_eq_ok_iff]
  cases x <;> simp [bytes?]

theorem asBool_eq_ok_iff {b : Bool} : x.asBool what = .ok b ↔ x = .bool b := by
  unfold asBool
  rw [required_eq_ok_iff]
  cases x <;> simp [bool?]

theorem asArray_eq_ok_iff {xs : List Item} : x.asArray what = .ok xs ↔ x = .array xs := by
  unfold asArray
  rw [required_eq_ok_iff]
  cases x <;> simp [array?]

theorem asMap_eq_ok_iff {es : List (Item × Item)} : x.asMap what = .ok es ↔ x = .map es := by
  unfold asMap
  rw [required_eq_ok_iff]
  cases x <;> simp [map?]

theorem text?_eq_some_iff {s : String} : x.text? = some s ↔ x = .text s := by
  cases x <;> simp [text?]

theorem mapM_asBool_eq_ok_iff {xs : List Item} {bs : List Bool} :
    xs.mapM (·.asBool what) = .ok bs ↔ xs = bs.map .bool := by
  simp only [mapM_eq_ok_iff, asBool_eq_ok_iff]
  rw [← List.forall₂_map_right_iff (R := Eq) (f := bool), List.forall₂_eq_eq_eq]

end Cbor.Item

end AttestedKey
