import AttestedKey.Base64

/-! Text blocks of octets: `-----BEGIN LABEL-----`, lines of base64, `-----END LABEL-----`. Text
between blocks is passed over. Reading is lenient inside a block, but a block that was begun has to
be whole.

Lines are taken in pieces of at most `maxPiece` octets, and what is no visible ASCII is cut off
their end. -/

namespace AttestedKey.Pem

structure Block where
  label : Octets
  header : Octets
  content : Octets
  deriving DecidableEq, Repr

inductive Next where
  | finished
  | malformed
  | block (block : Block) (rest : Octets)

def newline : UInt8 := 0x0A

def beginMark : Octets := Octets.ofAscii "-----BEGIN "

def endMark : Octets := Octets.ofAscii "-----END "

def dashes : Octets := Octets.ofAscii "-----"

def maxPiece : Nat := 254

/-- The front of the octets up to and with a line feed, at most `n` of them. -/
def pieceWithin : Nat → Octets → Octets × Octets
  | 0, bs => ([], bs)
  | _ + 1, [] => ([], [])
  | n + 1, b :: bs =>
    if b == newline then ([b], bs)
    else
      let (piece, rest) := pieceWithin n bs
      (b :: piece, rest)

def piece (bs : Octets) : Octets × Octets := pieceWithin maxPiece bs

def isVisible (b : UInt8) : Bool := 0x20 < b && b < 0x80

def stripped (line : Octets) : Octets := (line.reverse.dropWhile fun b => !isVisible b).reverse

/-- Text ends at a zero octet. -/
def untilZero (bs : Octets) : Octets := bs.takeWhile (· != 0)

def withoutByteOrderMark (line : Octets) : Octets :=
  match line with
  | 0xEF :: 0xBB :: 0xBF :: b :: rest => b :: rest
  | line => line

def label? (line : Octets) : Option Octets :=
  let line := stripped line
  if beginMark.isPrefixOf line && dashes.isSuffixOf line then
    some (untilZero
      ((line.drop beginMark.length).take (line.length - beginMark.length - dashes.length)))
  else none

def findLabel (first : Bool) : Nat → Octets → Option (Octets × Octets)
  | 0, _ => none
  | n + 1, bs =>
    let (line, rest) := piece bs
    if line.isEmpty then none
    else match label? (if first then withoutByteOrderMark line else line) with
      | some label => some (label, rest)
      | none => findLabel false n rest

/-- Whether lines belong to a header: not known before a colon or an empty line is met. -/
inductive Part
  | undecided
  | header
  | content
  deriving DecidableEq

structure Body where
  part : Part := .undecided
  /-- Lines above an empty one, and lines below it, last first. -/
  above : List Octets := []
  below : List Octets := []
  /-- A short line below a header is the last one. -/
  ended : Bool := false
  /-- The last piece did not reach the end of its line. -/
  partialLine : Bool := false

namespace Body

def joined (lines : List Octets) : Octets := lines.reverse.flatten

/-- What a line adds: it ends with a line feed, unless a zero octet ends it before. -/
def added (line : Octets) : Octets := untilZero (line ++ [newline])

def addLine (b : Body) (line : Octets) : Option Body :=
  if b.ended then none
  else match b.part with
    | .content =>
      if 64 < line.length then none
      else some { b with below := added line :: b.below, ended := line.length < 64 }
    | _ => some { b with above := added line :: b.above }

/-- An empty line ends a header once; the line feed of a line taken in pieces is no empty line. -/
def addEmpty (b : Body) (continued : Bool) : Option Body :=
  if continued then some b
  else if b.part = .content then none
  else some { b with part := .content }

/-- What is known once a line is seen: a colon makes it part of a header. -/
def noted (b : Body) (line : Octets) : Body :=
  { b with
    part := if b.part = Part.undecided ∧ line.contains 0x3A then Part.header else b.part
    partialLine := line.length == maxPiece && line.getLast? != some newline }

/-- Header and content; without a header all lines are content. -/
def parts (b : Body) : Octets × Octets :=
  if b.part = .undecided then ([], joined b.above) else (joined b.above, joined b.below)

end Body

def readBody (label : Octets) : Nat → Body → Octets → Option ((Octets × Octets) × Octets)
  | 0, _, _ => none
  | n + 1, b, bs =>
    let (line, rest) := piece bs
    if line.isEmpty then none
    else
      let text := stripped line
      let next := b.noted line
      if text.isEmpty then (next.addEmpty b.partialLine).bind fun b => readBody label n b rest
      else if endMark.isPrefixOf text then
        if text = endMark ++ label ++ dashes then some (next.parts, rest) else none
      else (next.addLine text).bind fun b => readBody label n b rest

def isBlank (b : UInt8) : Bool := b == 0x20 || b == 0x09 || b == 0x0A || b == 0x0D

def groupsOnto (found : Octets) : List Nat → Octets
  | a :: b :: c :: d :: rest =>
    let n := ((a * 64 + b) * 64 + c) * 64 + d
    groupsOnto (UInt8.ofNat n :: UInt8.ofNat (n / 256) :: UInt8.ofNat (n / 65536) :: found) rest
  | _ => found.reverse

/-- Base64 with blanks anywhere, ended by a hyphen if there is one. Groups of four characters have
to be complete, the last with at most two `=`, and bits that do not fill an octet count for
nothing. -/
def decode? (text : Octets) : Option Octets := do
  let text := (text.takeWhile (· != 0x2D)).filter fun b => !isBlank b
  let digits := text.takeWhile (· != 0x3D)
  let padding := text.dropWhile (· != 0x3D)
  let values ← digits.mapM fun b => Base64.Alphabet.standard.value? (Char.ofNat b.toNat)
  if padding.all (· == 0x3D) && padding.length ≤ 2 && text.length % 4 == 0 then
    some ((groupsOnto [] (values ++ padding.map fun _ => 0)).take
      (text.length / 4 * 3 - padding.length))
  else none

def next (bs : Octets) : Next :=
  match findLabel true (bs.length + 1) bs with
  | none => .finished
  | some (label, inside) =>
    match readBody label (inside.length + 1) {} inside with
    | none => .malformed
    | some ((header, text), rest) =>
      match decode? text with
      | none => .malformed
      | some content => .block ⟨label, header, content⟩ rest

def allWithin (isWanted : Octets → Bool) : Nat → List Octets → Octets → Option (List Octets)
  | 0, found, _ => some found.reverse
  | n + 1, found, bs =>
    match next bs with
    | .finished => some found.reverse
    | .malformed => none
    | .block b rest =>
      if isWanted b.label then
        if b.header.isEmpty then allWithin isWanted n (b.content :: found) rest else none
      else allWithin isWanted n found rest

/-- The contents of the blocks whose labels are wanted, which must not have headers. -/
def all (isWanted : Octets → Bool) (bs : Octets) : Option (List Octets) :=
  allWithin isWanted (bs.length + 1) [] bs

def firstWithin (isWanted : Octets → Bool) : Nat → Octets → Option Octets
  | 0, _ => none
  | n + 1, bs =>
    match next bs with
    | .block b rest =>
      if isWanted b.label then if b.header.isEmpty then some b.content else none
      else firstWithin isWanted n rest
    | _ => none

def first? (isWanted : Octets → Bool) (bs : Octets) : Option Octets :=
  firstWithin isWanted (bs.length + 1) bs

end AttestedKey.Pem
