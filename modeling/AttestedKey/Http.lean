import AttestedKey.Utf8

/-! Requests to a server and what comes back. -/

namespace AttestedKey

structure HttpRequest where
  method : String
  address : String
  parameters : List (String × String) := []
  body : Octets := []
  deriving DecidableEq, Repr

namespace HttpRequest

/-- Letters, digits and four marks stand for themselves. -/
def isPlain (b : UInt8) : Bool :=
  (0x30 ≤ b && b ≤ 0x39) || (0x41 ≤ b && b ≤ 0x5A) || (0x61 ≤ b && b ≤ 0x7A) ||
    b == 0x2A || b == 0x2D || b == 0x2E || b == 0x5F

def capitalHex (n : Nat) : Char := "0123456789ABCDEF".toList.getD n '0'

/-- An octet of a parameter: a blank is a plus sign, and what is not plain is `%` and two digits. -/
def parameterChars (b : UInt8) : List Char :=
  if isPlain b then [Char.ofNat b.toNat]
  else if b = 0x20 then ['+']
  else ['%', capitalHex (b.toNat / 16), capitalHex (b.toNat % 16)]

def parameterText (s : String) : String := String.ofList ((Utf8.encode s).flatMap parameterChars)

/-- Parameters continue a query that the address has already. -/
def url (r : HttpRequest) : String :=
  let pairs := r.parameters.map fun (k, v) => parameterText k ++ "=" ++ parameterText v
  if pairs.isEmpty then r.address
  else r.address ++ (if r.address.contains '?' then "&" else "?") ++ "&".intercalate pairs

end HttpRequest

structure HttpBody where
  octets : Octets
  /-- Why it breaks off behind them, where that is not its end. -/
  broken : Option String := none
  deriving DecidableEq, Repr

namespace HttpBody

instance : Coe Octets HttpBody := ⟨fun octets => { octets := octets }⟩

/-- The first octets of a body, up to a limit. What is wrong with it behind the limit does not
show. -/
def upTo (limit : Nat) (b : HttpBody) : Except String Octets :=
  if limit ≤ b.octets.length then .ok (b.octets.take limit)
  else match b.broken with
    | none => .ok b.octets
    | some cause => .error cause

theorem upTo_eq_ok_iff {limit : Nat} {b : HttpBody} {bs : Octets} : b.upTo limit = .ok bs ↔
    (b.broken = none ∨ limit ≤ b.octets.length) ∧ bs = b.octets.take limit := by
  unfold upTo
  by_cases h : limit ≤ b.octets.length
  · simp [h, eq_comm]
  · have htake : b.octets.take limit = b.octets := List.take_of_length_le (by omega)
    cases hbroken : b.broken <;> simp [h, htake, eq_comm]

theorem upTo_eq_error_iff {limit : Nat} {b : HttpBody} {cause : String} :
    b.upTo limit = .error cause ↔
    b.broken = some cause ∧ b.octets.length < limit := by
  unfold upTo
  by_cases h : limit ≤ b.octets.length
  · simp [h]
  · cases hbroken : b.broken <;> simp [h]
    omega

/-- Of a body that ends as it should there is always as much as the limit allows. -/
theorem upTo_whole (limit : Nat) (bs : Octets) : upTo limit bs = .ok (bs.take limit) :=
  upTo_eq_ok_iff.2 ⟨.inl rfl, rfl⟩

end HttpBody

/-- What comes of a request. Redirections have been followed, and encodings for the transfer
undone. -/
inductive HttpOutcome where
  | failed (cause : String := "no answer")
  | answered (status : Nat) (body : HttpBody)
  deriving DecidableEq, Repr

namespace HttpOutcome

/-- The body, which answers of two kinds do not have. -/
def delivered (status : Nat) (body : HttpBody) : HttpBody :=
  if status = 204 ∨ status = 304 then { octets := [] } else body

/-- Longer bodies are not taken for text. -/
def maxText : Nat := 0xA00000

def text (status : Nat) (body : HttpBody) : Except String String := do
  let octets ← (delivered status body).upTo (maxText + 1)
  if maxText < octets.length then .error "response too big for into_string"
  else pure (Utf8.decodeLossy octets)

end HttpOutcome

end AttestedKey
