import AttestedKey.Json.Token

/-! Reading a JSON text. Arrays and objects may nest to any depth, for which the ones still open
are kept on a stack; members keep their order and may repeat a name. -/

namespace AttestedKey.Json

/-- A value as it was read; a string or name is absent where it has no text. -/
inductive Reading where
  | null
  | bool (value : Bool)
  | number
  | string (text : Option String)
  | array (items : List Reading)
  | object (members : List (Option String × Reading))
  deriving Inhabited

namespace Reading

/-- An array or object that is still open, with what it holds so far, last first. -/
inductive Frame where
  | array (items : List Reading)
  | object (name : Option String) (members : List (Option String × Reading))

/-- Goes on with the open frames, innermost first, and the value just completed, if one is. -/
def parse (frames : List Frame) (value : Option Reading) : List Token → Option Reading
  | [] =>
    match frames, value with
    | [], some v => some v
    | _, _ => none
  | .null :: rest => if value.isSome then none else parse frames (some null) rest
  | .bool b :: rest => if value.isSome then none else parse frames (some (bool b)) rest
  | .number :: rest => if value.isSome then none else parse frames (some number) rest
  | .string s :: rest => if value.isSome then none else parse frames (some (string s)) rest
  | .openArray :: .closeArray :: rest =>
    if value.isSome then none else parse frames (some (array [])) rest
  | .openArray :: rest => if value.isSome then none else parse (.array [] :: frames) none rest
  | .openObject :: .closeObject :: rest =>
    if value.isSome then none else parse frames (some (object [])) rest
  | .openObject :: .string name :: .colon :: rest =>
    if value.isSome then none else parse (.object name [] :: frames) none rest
  | .closeArray :: rest =>
    match frames, value with
    | .array items :: frames, some v => parse frames (some (array (v :: items).reverse)) rest
    | _, _ => none
  | .closeObject :: rest =>
    match frames, value with
    | .object name members :: frames, some v =>
      parse frames (some (object ((name, v) :: members).reverse)) rest
    | _, _ => none
  | .comma :: .string name :: .colon :: rest =>
    match frames, value with
    | .object name' members :: frames, some v =>
      parse (.object name ((name', v) :: members) :: frames) none rest
    | _, _ => none
  | .comma :: rest =>
    match frames, value with
    | .array items :: frames, some v => parse (.array (v :: items) :: frames) none rest
    | _, _ => none
  | _ :: _ => none

def ofText? (s : String) : Option Reading := (Token.all? s).bind (parse [] none)

end Reading

end AttestedKey.Json
