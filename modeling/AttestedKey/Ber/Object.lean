import AttestedKey.Octets

/-! The objects of the Basic Encoding Rules, as far as a record reader looks into them: SEQUENCE
and SET are trees, everything outside the universal class is kept as its raw content. -/

namespace AttestedKey.Ber

inductive TagClass
  | universal
  | application
  | context
  | privateUse
  deriving DecidableEq, Repr

inductive Object where
  | boolean (value : Bool)
  | integer (content : Octets)
  | enumerated (value : Nat)
  | octetString (content : Octets)
  | characters (tag : Nat) (text : String)
  | sequence (items : List Object)
  | set (items : List Object)
  | other (tag : Nat) (content : Octets)
  | tagged (tagClass : TagClass) (tag : Nat) (content : Octets)
  deriving Inhabited, Repr

namespace Object

def tag : Object → Nat
  | boolean _ => 1
  | integer _ => 2
  | octetString _ => 4
  | enumerated _ => 10
  | sequence _ => 16
  | set _ => 17
  | characters tag _ => tag
  | other tag _ => tag
  | tagged _ tag _ => tag

end Object

end AttestedKey.Ber
