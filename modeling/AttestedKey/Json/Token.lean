import AttestedKey.Ber.CharacterSet

/-! The tokens of a JSON text. Numbers are checked and not kept. A string that escapes half of a
surrogate pair has a form but no text. -/

namespace AttestedKey.Json

inductive Token where
  | openArray
  | closeArray
  | openObject
  | closeObject
  | colon
  | comma
  | null
  | bool (value : Bool)
  | number
  | string (text : Option String)
  deriving DecidableEq, Repr

namespace Token

def isBlank (c : Char) : Bool := c == ' ' || c == '\t' || c == '\n' || c == '\r'

def isDigit (c : Char) : Bool := '0' ≤ c && c ≤ '9'

def digits? (cs : List Char) : Option (List Char) :=
  match cs with
  | c :: rest => if isDigit c then some (rest.dropWhile isDigit) else none
  | [] => none

def exponent? (cs : List Char) : Option (List Char) :=
  match cs with
  | '+' :: rest | '-' :: rest => digits? rest
  | rest => digits? rest

def fraction? (cs : List Char) : Option (List Char) := do
  let rest ← match cs with
    | '.' :: rest => digits? rest
    | rest => some rest
  match rest with
  | 'e' :: rest | 'E' :: rest => exponent? rest
  | rest => some rest

/-- What follows a number; a leading zero is the whole integer part. -/
def number? (cs : List Char) : Option (List Char) :=
  let integer (cs : List Char) : Option (List Char) :=
    match cs with
    | '0' :: rest => some rest
    | rest => digits? rest
  match cs with
  | '-' :: rest => (integer rest).bind fraction?
  | rest => (integer rest).bind fraction?

/-- What a string is written with: a character, or half of a surrogate pair. -/
inductive Piece where
  | char (c : Char)
  | half (unit : Nat)

def textOnto (text : List Char) : List Piece → Option (List Char)
  | [] => some text
  | .char c :: rest => textOnto (c :: text) rest
  | .half v :: .half u :: rest =>
    if Ber.isLeadingSurrogate u && Ber.isTrailingSurrogate v then
      textOnto (Char.ofNat (0x10000 + (u - 0xD800) * 0x400 + (v - 0xDC00)) :: text) rest
    else none
  | .half _ :: _ => none

def piece (unit : Nat) : Piece :=
  if Ber.isLeadingSurrogate unit || Ber.isTrailingSurrogate unit then .half unit
  else .char (Char.ofNat unit)

def escape? : Char → Option Char
  | '"' => some '"'
  | '\\' => some '\\'
  | '/' => some '/'
  | 'b' => some '\x08'
  | 'f' => some '\x0c'
  | 'n' => some '\n'
  | 'r' => some '\r'
  | 't' => some '\t'
  | _ => none

/-- The string behind an opening quote, and what follows the closing one. Control characters have
to be escaped. -/
def stringOnto (pieces : List Piece) : List Char → Option (Option String × List Char)
  | [] => none
  | '"' :: rest => some ((textOnto [] pieces).map String.ofList, rest)
  | '\\' :: 'u' :: a :: b :: c :: d :: rest =>
    match Octets.hexValue? a, Octets.hexValue? b, Octets.hexValue? c, Octets.hexValue? d with
    | some a, some b, some c, some d =>
      stringOnto (piece (((a * 16 + b) * 16 + c) * 16 + d) :: pieces) rest
    | _, _, _, _ => none
  | '\\' :: c :: rest =>
    match escape? c with
    | some c => stringOnto (.char c :: pieces) rest
    | none => none
  | c :: rest => if c == '\\' || c.toNat < 0x20 then none else stringOnto (.char c :: pieces) rest

def read : List Char → Option (Token × List Char)
  | '[' :: rest => some (openArray, rest)
  | ']' :: rest => some (closeArray, rest)
  | '{' :: rest => some (openObject, rest)
  | '}' :: rest => some (closeObject, rest)
  | ':' :: rest => some (colon, rest)
  | ',' :: rest => some (comma, rest)
  | '"' :: rest => (stringOnto [] rest).map fun (s, rest) => (string s, rest)
  | 'n' :: 'u' :: 'l' :: 'l' :: rest => some (null, rest)
  | 't' :: 'r' :: 'u' :: 'e' :: rest => some (bool true, rest)
  | 'f' :: 'a' :: 'l' :: 's' :: 'e' :: rest => some (bool false, rest)
  | cs => (number? cs).map fun rest => (number, rest)

def allWithin : Nat → List Token → List Char → Option (List Token)
  | fuel, found, cs =>
    match cs.dropWhile isBlank with
    | [] => some found.reverse
    | cs =>
      match fuel with
      | 0 => none
      | fuel + 1 =>
        match read cs with
        | some (t, rest) => allWithin fuel (t :: found) rest
        | none => none

def all? (s : String) : Option (List Token) := allWithin s.length [] s.toList

end Token

end AttestedKey.Json
