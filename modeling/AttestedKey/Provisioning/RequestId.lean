import AttestedKey.Octets

/-! Random identifiers of requests, as text: 16 octets in five groups of hexadecimal digits. Six of
the bits are not random but tell that the others are. -/

namespace AttestedKey.RequestId

/-- The octets with version 4 and the variant put into the 7th and the 9th. -/
def marked (bs : Octets) : Octets :=
  (bs.modify 6 fun b => 0x40 ||| (b &&& 0x0F)).modify 8 fun b => 0x80 ||| (b &&& 0x3F)

def ofRandom (bs : Octets) : String :=
  let bs := marked bs
  let group (start count : Nat) : String := Octets.toHex ((bs.drop start).take count)
  "-".intercalate [group 0 4, group 4 2, group 6 2, group 8 2, group 10 6]

end AttestedKey.RequestId
