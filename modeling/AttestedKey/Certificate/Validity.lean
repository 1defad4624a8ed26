import AttestedKey.Ber.Time
import AttestedKey.Der.Element
import AttestedKey.Instant

/-! The two instants between which a certificate is valid, both included. -/

namespace AttestedKey

open Der (Element)
open Ber (TimeText Zone)

structure Validity where
  notBefore : Instant
  notAfter : Instant
  deriving DecidableEq

namespace Validity

/-- Seconds ahead of UTC; minutes count in the direction of the hours. -/
def zoneSeconds? : Zone → Option Int
  | .utc | .unstated => some 0
  | .offset h m =>
    if h.natAbs ≤ 25 ∧ m ≤ 59 then some (h * 3600 + (if h < 0 then -60 else 60) * m) else none

def instant? (t : TimeText) (year : Int) : Option Instant := do
  let date ← CivilDate.ofParts? year t.month t.day
  let ahead ← zoneSeconds? t.zone
  Instant.ofSeconds?
    (date.toDays * 86400 + (t.hour * 3600 + t.minute * 60 + t.second : Nat) - ahead)

/-- UTCTime, whose two digits mean the years 1950 to 2049. -/
def utcTime? (content : Octets) : Option Instant := do
  let t ← Ber.utcTime? content
  instant? t (if t.year < 50 then 2000 + t.year else 1900 + t.year)

/-- GeneralizedTime that ends in `Z` and has no comma. -/
def generalizedTime? (content : Octets) : Option Instant := do
  if content.getLast? ≠ some 0x5A ∨ content.contains 0x2C then none else
  let t ← Ber.generalizedTime? content
  instant? t t.year

def readTime : Reader Instant := fun bs => do
  let (e, rest) ← Element.read bs
  match e.tag with
  | 23 => pure (← utcTime? e.content, rest)
  | 24 => pure (← generalizedTime? e.content, rest)
  | _ => none

def read : Reader Validity := fun bs => do
  let (e, rest) ← Element.numbered 16 bs
  let (notBefore, inner) ← readTime e.content
  let (notAfter, _) ← readTime inner
  pure (⟨notBefore, notAfter⟩, rest)

end Validity

end AttestedKey
