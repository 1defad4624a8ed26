import AttestedKey.Octets

/-! Writing elements with the shortest lengths. -/

namespace AttestedKey.Der

def writeLength (n : Nat) : Octets :=
  if n < 128 then [UInt8.ofNat n]
  else UInt8.ofNat (128 + Octets.width n) :: Octets.ofNatMinimal n

def write (lead : UInt8) (content : Octets) : Octets :=
  lead :: (writeLength content.length ++ content)

def writeSequence (parts : List Octets) : Octets := write 0x30 parts.flatten

def writeOid (content : Octets) : Octets := write 0x06 content

/-- Content of the INTEGER `n`: no redundant octets, and a zero octet where the value would look
negative. -/
def naturalContent (n : Nat) : Octets :=
  match Octets.ofNatMinimal n with
  | [] => [0]
  | b :: bs => if b < 0x80 then b :: bs else 0 :: b :: bs

def writeNatural (n : Nat) : Octets := write 0x02 (naturalContent n)

def writeBits (content : Octets) : Octets := write 0x03 (0 :: content)

def null : Octets := [0x05, 0x00]

end AttestedKey.Der
