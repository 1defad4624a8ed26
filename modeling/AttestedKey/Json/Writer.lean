import AttestedKey.Octets

/-! JSON values and their two written forms: on one line, and indented by two spaces. Members keep
their order. -/

namespace AttestedKey

inductive Json where
  | null
  | bool (value : Bool)
  | int (value : Int)
  | text (value : String)
  | array (items : List Json)
  | object (members : List (String × Json))
  deriving Inhabited

namespace Json

def ofOption {α : Type} (f : α → Json) : Option α → Json
  | none => null
  | some x => f x

def hex (bs : Octets) : Json := text bs.toHex

/-- A member that is left out when there is no value. -/
def optionalMember {α : Type} (name : String) (f : α → Json) (v : Option α) :
    List (String × Json) :=
  (v.map fun x => (name, f x)).toList

def lowHex (n : Nat) : String := String.ofList [Octets.hexDigit (n / 16), Octets.hexDigit (n % 16)]

/-- Only quotes, backslashes and control characters are escaped. -/
def escaped (c : Char) : String :=
  match c with
  | '"' => "\\\""
  | '\\' => "\\\\"
  | '\x08' => "\\b"
  | '\x0c' => "\\f"
  | '\n' => "\\n"
  | '\r' => "\\r"
  | '\t' => "\\t"
  | c => if c.toNat < 0x20 then "\\u00" ++ lowHex c.toNat else c.toString

def quoted (s : String) : String :=
  (s.foldl (fun out c =>
    if c.toNat < 0x20 ∨ c = '"' ∨ c = '\\' then out ++ escaped c else out.push c)
    "\"").push '"'

/-- `newline` starts a line at a depth, `colon` stands between name and value. -/
structure Layout where
  newline : Nat → String
  colon : String

def Layout.compact : Layout := ⟨fun _ => "", ":"⟩

def Layout.pretty : Layout :=
  ⟨fun depth => "\n" ++ String.ofList (List.replicate (2 * depth) ' '), ": "⟩

mutual

def writeOnto (l : Layout) (depth : Nat) (out : String) : Json → String
  | null => out ++ "null"
  | bool true => out ++ "true"
  | bool false => out ++ "false"
  | int n => out ++ toString n
  | text s => out ++ quoted s
  | array [] => out ++ "[]"
  | array (x :: xs) =>
    let out := writeOnto l (depth + 1) (out ++ "[" ++ l.newline (depth + 1)) x
    writeItems l (depth + 1) out xs ++ l.newline depth ++ "]"
  | object [] => out ++ "\x7b\x7d"
  | object ((k, x) :: ms) =>
    let out :=
      writeOnto l (depth + 1) (out ++ "\x7b" ++ l.newline (depth + 1) ++ quoted k ++ l.colon) x
    writeMembers l (depth + 1) out ms ++ l.newline depth ++ "\x7d"

def writeItems (l : Layout) (depth : Nat) (out : String) : List Json → String
  | [] => out
  | x :: xs => writeItems l depth (writeOnto l depth (out ++ "," ++ l.newline depth) x) xs

def writeMembers (l : Layout) (depth : Nat) (out : String) : List (String × Json) → String
  | [] => out
  | (k, x) :: ms =>
    writeMembers l depth
      (writeOnto l depth (out ++ "," ++ l.newline depth ++ quoted k ++ l.colon) x) ms

end

def compact (j : Json) : String := writeOnto .compact 0 "" j

def pretty (j : Json) : String := writeOnto .pretty 0 "" j

end Json

end AttestedKey
