import AttestedKey.Octets

/-! Data items of the Concise Binary Object Representation. Map entries keep their order and may
repeat a key; a tagged item is not its content. -/

namespace AttestedKey.Cbor

inductive Item where
  | unsigned (n : UInt64)
  /-- The number `-1 - n`. -/
  | negative (n : UInt64)
  | bytes (value : Octets)
  | text (value : String)
  | array (items : List Item)
  | map (entries : List (Item × Item))
  | tagged (number : UInt64) (content : Item)
  | bool (value : Bool)
  /-- Null, and also undefined. -/
  | null
  | float (bits : UInt64)
  deriving Inhabited, Repr

namespace Item

def ofInt64 (n : Int64) : Item :=
  if 0 ≤ n.toInt then .unsigned (UInt64.ofNat n.toInt.toNat)
  else .negative (UInt64.ofNat (-1 - n.toInt).toNat)

def int? : Item → Option Int
  | unsigned n => some n.toNat
  | negative n => some (-1 - n.toNat)
  | _ => none

def bytes? : Item → Option Octets
  | bytes b => some b
  | _ => none

def text? : Item → Option String
  | text s => some s
  | _ => none

def bool? : Item → Option Bool
  | bool b => some b
  | _ => none

def array? : Item → Option (List Item)
  | array xs => some xs
  | _ => none

def map? : Item → Option (List (Item × Item))
  | map es => some es
  | _ => none

end Item

end AttestedKey.Cbor
