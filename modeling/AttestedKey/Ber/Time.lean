import AttestedKey.Octets

/-! UTCTime and GeneralizedTime as text. Both give a civil date and time of day, a number of
milliseconds if there is a fraction, and the zone written behind it. -/

namespace AttestedKey.Ber

inductive Zone
  | utc
  /-- Hours and minutes; the sign is that of the hours, and is lost at zero hours. -/
  | offset (hours : Int) (minutes : Nat)
  | unstated
  deriving DecidableEq, Repr

structure TimeText where
  year : Nat
  month : Nat
  day : Nat
  hour : Nat
  minute : Nat
  second : Nat
  millisecond : Option Nat
  zone : Zone
  deriving DecidableEq, Repr

def digit? (b : UInt8) : Option Nat := if 0x30 ≤ b ∧ b ≤ 0x39 then some (b.toNat - 0x30) else none

def twoDigits : Reader Nat
  | a :: b :: rest => do pure ((← digit? a) * 10 + (← digit? b), rest)
  | _ => none

def zone? : Octets → Option Zone
  | [0x5A] => some .utc
  | [0x2B, h1, h2, m1, m2] => do
    let (h, _) ← twoDigits [h1, h2]
    let (m, _) ← twoDigits [m1, m2]
    pure (.offset h m)
  | [0x2D, h1, h2, m1, m2] => do
    let (h, _) ← twoDigits [h1, h2]
    let (m, _) ← twoDigits [m1, m2]
    pure (.offset (-h) m)
  | _ => none

/-- Seconds are left out when fewer than two octets remain. -/
def seconds : Reader Nat
  | a :: b :: rest => twoDigits (a :: b :: rest)
  | rest => some (0, rest)

def startsZone (b : UInt8) : Bool := b == 0x5A || b == 0x2B || b == 0x2D

/-- A point or comma, then digits up to the zone or the end: at most three before a zone, at most
four and not none before the end. In milliseconds. -/
def fraction : Reader (Option Nat)
  | 0x2E :: bs | 0x2C :: bs =>
    let digits := bs.takeWhile fun b => (digit? b).isSome
    let rest := bs.dropWhile fun b => (digit? b).isSome
    let n := digits.foldl (fun n b => n * 10 + (digit? b).getD 0) 0
    let count := digits.length
    let ends := match rest with
      | [] => 1 ≤ count && count ≤ 4
      | b :: _ => startsZone b && count ≤ 3
    if ends then
      some (some (if count = 1 then n * 100 else if count = 2 then n * 10 else n), rest)
    else none
  | bs => some (none, bs)

/-- Month, day and time of day are within their largest values; zero months and days pass. -/
def TimeText.inRange (t : TimeText) : Bool :=
  t.month ≤ 12 && t.day ≤ 31 && t.hour ≤ 23 && t.minute ≤ 59 && t.second ≤ 59

def isVisible (b : UInt8) : Bool := 0x20 ≤ b && b ≤ 0x7F

def checked (t : TimeText) : Option TimeText := if t.inRange then some t else none

def utcTime? (bs : Octets) : Option TimeText :=
  if bs.all isVisible then do
    let (year, bs) ← twoDigits bs
    let (month, bs) ← twoDigits bs
    let (day, bs) ← twoDigits bs
    let (hour, bs) ← twoDigits bs
    let (minute, bs) ← twoDigits bs
    let (second, bs) ← seconds bs
    checked ⟨year, month, day, hour, minute, second, none, ← zone? bs⟩
  else none

/-- `YYYYMMDDhhmm`, then seconds, a fraction and a zone, each of which may be missing, but not
all. -/
def generalizedTime? (bs : Octets) : Option TimeText :=
  if bs.all isVisible then do
    let (century, bs) ← twoDigits bs
    let (year, bs) ← twoDigits bs
    let (month, bs) ← twoDigits bs
    let (day, bs) ← twoDigits bs
    let (hour, bs) ← twoDigits bs
    let (minute, bs) ← twoDigits bs
    if bs.isEmpty then none else
    let (second, bs) ← seconds bs
    let (millisecond, bs) ← fraction bs
    let zone ← if bs.isEmpty then some .unstated else zone? bs
    checked ⟨century * 100 + year, month, day, hour, minute, second, millisecond, zone⟩
  else none

end AttestedKey.Ber
