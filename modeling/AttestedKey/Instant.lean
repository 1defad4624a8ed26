/-! Instants in whole milliseconds around 1970 in UTC, within the years -262143 to 262142, and their
text. -/

namespace AttestedKey

structure Instant where
  millis : Int
  valid : -8334601228800000 ≤ millis ∧ millis ≤ 8210266876799999
  deriving DecidableEq

namespace Instant

def ofMillis? (ms : Int) : Option Instant :=
  if h : -8334601228800000 ≤ ms ∧ ms ≤ 8210266876799999 then some ⟨ms, h⟩ else none

def ofSeconds? (s : Int) : Option Instant := ofMillis? (s * 1000)

instance : LT Instant := ⟨fun a b => a.millis < b.millis⟩

instance (a b : Instant) : Decidable (a < b) := inferInstanceAs (Decidable (a.millis < b.millis))

end Instant

structure CivilDate where
  year : Int
  month : Nat
  day : Nat
  deriving DecidableEq, Repr

namespace CivilDate

/-- Years are counted from March, so that the leap day is the last of its year. Days are counted
from 1970-01-01. -/
def ofDays (days : Int) : CivilDate :=
  let z := days + 719468
  let era := z.fdiv 146097
  let dayOfEra := (z - era * 146097).toNat
  let yearOfEra := (dayOfEra - dayOfEra / 1460 + dayOfEra / 36524 - dayOfEra / 146096) / 365
  let dayOfYear := dayOfEra - (365 * yearOfEra + yearOfEra / 4 - yearOfEra / 100)
  let m := (5 * dayOfYear + 2) / 153
  let month := if m < 10 then m + 3 else m - 9
  ⟨(yearOfEra : Int) + era * 400 + (if month ≤ 2 then 1 else 0), month,
    dayOfYear - (153 * m + 2) / 5 + 1⟩

def toDays (d : CivilDate) : Int :=
  let y := if d.month ≤ 2 then d.year - 1 else d.year
  let era := y.fdiv 400
  let yearOfEra := (y - era * 400).toNat
  let m := if 2 < d.month then d.month - 3 else d.month + 9
  let dayOfYear := (153 * m + 2) / 5 + d.day - 1
  let dayOfEra := yearOfEra * 365 + yearOfEra / 4 - yearOfEra / 100 + dayOfYear
  era * 146097 + dayOfEra - 719468

def isLeap (year : Int) : Bool := year % 4 == 0 && (year % 100 != 0 || year % 400 == 0)

def daysInMonth (year : Int) (month : Nat) : Nat :=
  match month with
  | 2 => if isLeap year then 29 else 28
  | 4 | 6 | 9 | 11 => 30
  | _ => 31

def ofParts? (year : Int) (month day : Nat) : Option CivilDate :=
  if 1 ≤ month ∧ month ≤ 12 ∧ 1 ≤ day ∧ day ≤ daysInMonth year month then some ⟨year, month, day⟩
  else none

end CivilDate

namespace Instant

def padded (width n : Nat) : String :=
  let digits := toString n
  String.ofList (List.replicate (width - digits.length) '0') ++ digits

/-- Four digits for the years 0 to 9999, else a sign and at least four. -/
def yearText (y : Int) : String :=
  if 0 ≤ y ∧ y ≤ 9999 then padded 4 y.toNat
  else (if y < 0 then "-" else "+") ++ padded 4 y.natAbs

def secondsText (t : Instant) : String :=
  let seconds := t.millis.fdiv 1000
  let days := seconds.fdiv 86400
  let s := (seconds - days * 86400).toNat
  let d := CivilDate.ofDays days
  yearText d.year ++ "-" ++ padded 2 d.month ++ "-" ++ padded 2 d.day ++ "T" ++
    padded 2 (s / 3600) ++ ":" ++ padded 2 (s / 60 % 60) ++ ":" ++ padded 2 (s % 60)

def fraction (t : Instant) : Nat := (t.millis.fmod 1000).toNat

/-- Date and time of day, with milliseconds only if there are any. -/
def dateTimeText (t : Instant) : String :=
  t.secondsText ++ if t.fraction = 0 then "" else "." ++ padded 3 t.fraction

def text (t : Instant) : String := t.dateTimeText ++ "Z"

/-- RFC 3339 with `Z` and milliseconds in any case. -/
def stamp (t : Instant) : String := t.secondsText ++ "." ++ padded 3 t.fraction ++ "Z"

def offsetText (t : Instant) : String := t.dateTimeText ++ "+00:00"

end Instant

end AttestedKey
