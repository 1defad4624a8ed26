/-! Arithmetic modulo a number. -/

namespace AttestedKey.Modular

/-- Square and multiply: `acc * base ^ exponent` modulo `m`. -/
def powOnto (m acc base exponent : Nat) : Nat :=
  if exponent = 0 then acc
  else powOnto m (if exponent % 2 = 1 then acc * base % m else acc) (base * base % m) (exponent / 2)
termination_by exponent

def pow (m base exponent : Nat) : Nat := powOnto m (1 % m) (base % m) exponent

def inverse (p a : Nat) : Nat := pow p a (p - 2)

/-- `a - b` modulo `p`, for `b` below `p`. -/
def sub (p a b : Nat) : Nat := (a + p - b) % p

end AttestedKey.Modular
