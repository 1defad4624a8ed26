/-! Integers that 64 bits hold. -/

namespace AttestedKey

def int64? (n : Int) : Option Int64 :=
  if -0x8000000000000000 ≤ n ∧ n < 0x8000000000000000 then some (Int64.ofInt n) else none

def uint64? (n : Int) : Option UInt64 :=
  if 0 ≤ n ∧ n < 0x10000000000000000 then some (UInt64.ofNat n.toNat) else none

end AttestedKey
