import AttestedKey.Cbor.Float
import AttestedKey.Cbor.Item
import AttestedKey.Utf8

/-! Reading a data item. Heads need not be minimal, strings, arrays and maps may be of indefinite
length, and tags 2 and 3 over a short byte string are integers where 64 bits and a sign can hold
them. Arrays, maps and tags nest at most `maxDepth` deep. -/

namespace AttestedKey.Cbor

structure Head where
  major : Nat
  width : Nat
  argument : Option Nat
  deriving Repr

def head : Reader Head
  | [] => none
  | b :: bs =>
    let major := b.toNat / 32
    let info := b.toNat % 32
    if info < 24 then some (⟨major, 0, some info⟩, bs)
    else if info < 28 then do
      let width := 1 <<< (info - 24)
      let (digits, rest) ← Octets.split? width bs
      pure (⟨major, width, some (Octets.toNat digits)⟩, rest)
    else if info = 31 then some (⟨major, 0, none⟩, bs)
    else none

def breakMark (bs : Octets) : Option Octets :=
  match bs with
  | 0xFF :: rest => some rest
  | _ => none

/-- The pieces inside `opened` strings of indefinite length of one major type, up to the break that
ends the outermost. -/
def piecesWithin (major : Nat) : Nat → Nat → List Octets → Reader (List Octets)
  | 0, _, _, _ => none
  | fuel + 1, opened, pieces, bs =>
    match breakMark bs with
    | some rest =>
      if opened ≤ 1 then some (pieces.reverse, rest)
      else piecesWithin major fuel (opened - 1) pieces rest
    | none => do
      let (h, bs) ← head bs
      if h.major ≠ major then none
      else match h.argument with
        | none => piecesWithin major fuel (opened + 1) pieces bs
        | some n =>
          let (piece, rest) ← Octets.split? n bs
          piecesWithin major fuel opened (piece :: pieces) rest

def pieces (major : Nat) (argument : Option Nat) : Reader (List Octets) := fun bs =>
  match argument with
  | some n => do
    let (piece, rest) ← Octets.split? n bs
    pure ([piece], rest)
  | none => piecesWithin major (bs.length + 1) 1 [] bs

def several (item : Reader Item) (argument : Option Nat) : Reader (List Item) :=
  match argument with
  | some n => Reader.times item n
  | none => Reader.untilMark breakMark item

def entry (item : Reader Item) : Reader (Item × Item) := fun bs => do
  let (k, bs) ← item bs
  let (v, bs) ← item bs
  pure ((k, v), bs)

def entries (item : Reader Item) (argument : Option Nat) : Reader (List (Item × Item)) :=
  match argument with
  | some n => Reader.times (entry item) n
  | none => Reader.untilMark breakMark (entry item)

/-- The content of a bignum: a definite byte string of at most 16 octets. -/
def shortBytes : Reader Octets := fun bs => do
  let (h, bs) ← head bs
  let n ← h.argument
  if h.major = 2 ∧ n ≤ 16 then Octets.split? n bs else none

def startsShortBytes (bs : Octets) : Bool :=
  match head bs with
  | some (⟨2, _, some n⟩, _) => n ≤ 16
  | _ => false

/-- The number of tag 2 or 3 over `n`: an integer, else a tag over the shortest byte string. Tag 3
stops at `2^127`. -/
def bignum (negative : Bool) (n : Nat) : Option Item :=
  if n < 0x10000000000000000 then
    some (if negative then .negative (UInt64.ofNat n) else .unsigned (UInt64.ofNat n))
  else if negative ∧ 0x80000000000000000000000000000000 ≤ n then none
  else some (.tagged (if negative then 3 else 2) (.bytes (Octets.ofNatMinimal n)))

def simple (h : Head) : Option Item := do
  let n ← h.argument
  if h.width = 2 then some (.float (UInt64.ofNat (FloatFormat.half.widen n)))
  else if h.width = 4 then some (.float (UInt64.ofNat (FloatFormat.single.widen n)))
  else if h.width = 8 then some (.float (UInt64.ofNat n))
  else match n with
    | 20 => some (.bool false)
    | 21 => some (.bool true)
    | 22 | 23 => some .null
    | _ => none

/-- One item, whose parts are read by `inner`; `none` where no further nesting is allowed. -/
def itemWith (inner : Option (Reader Item)) : Reader Item := fun bs => do
  let (h, bs) ← head bs
  match h.major with
  | 0 => pure (.unsigned (UInt64.ofNat (← h.argument)), bs)
  | 1 => pure (.negative (UInt64.ofNat (← h.argument)), bs)
  | 2 =>
    let (parts, rest) ← pieces 2 h.argument bs
    pure (.bytes parts.flatten, rest)
  | 3 =>
    let (parts, rest) ← pieces 3 h.argument bs
    let texts ← parts.mapM Utf8.decode?
    pure (.text (String.join texts), rest)
  | 4 =>
    let (xs, rest) ← several (← inner) h.argument bs
    pure (.array xs, rest)
  | 5 =>
    let (es, rest) ← entries (← inner) h.argument bs
    pure (.map es, rest)
  | 6 =>
    let number ← h.argument
    if (number = 2 ∨ number = 3) ∧ startsShortBytes bs then
      let (digits, rest) ← shortBytes bs
      pure (← bignum (number = 3) (Octets.toNat digits), rest)
    else
      let (x, rest) ← (← inner) bs
      pure (.tagged (UInt64.ofNat number) x, rest)
  | _ => pure (← simple h, bs)

def item : Nat → Reader Item
  | 0 => itemWith none
  | depth + 1 => itemWith (some (item depth))

def maxDepth : Nat := 256

def read : Reader Item := item maxDepth

end AttestedKey.Cbor
