import AttestedKey.Record.Element

/-! The root of trust: what verified boot reported when the key was made. A key description carries
it as a SEQUENCE; an entity attestation token gives a vector of flags, which `bootState`
resolves. -/

namespace AttestedKey

inductive VerifiedBootState
  | verified
  | selfSigned
  | unverified
  | failed
  deriving DecidableEq, Repr

namespace VerifiedBootState

def ofNumber (n : Int64) : Decoded VerifiedBootState :=
  if n = 0 then .ok verified
  else if n = 1 then .ok selfSigned
  else if n = 2 then .ok unverified
  else if n = 3 then .ok failed
  else .error (.typeMismatch s!"unknown verified boot state {n.toInt}")

def number : VerifiedBootState → Int64
  | verified => 0
  | selfSigned => 1
  | unverified => 2
  | failed => 3

theorem ofNumber_number (s : VerifiedBootState) : ofNumber s.number = .ok s := by cases s <;> rfl

def name : VerifiedBootState → String
  | verified => "Verified"
  | selfSigned => "SelfSigned"
  | unverified => "Unverified"
  | failed => "Failed"

end VerifiedBootState

def flagsText (flags : List Bool) : String :=
  "[" ++ ", ".intercalate (flags.map fun b => if b then "true" else "false") ++ "]"

/-- The state behind the five flags of a token. The first says verified or self-signed, and one of
the next three has to agree with it; the last, debugging permanently disabled, has to be off. An
official build has to be verified. -/
def bootState (flags : List Bool) (official : Bool) : Decoded VerifiedBootState :=
  match flags with
  | [first, a, b, c, disabled] =>
    if disabled then .error (.invariantViolation "boot state: debug-permanent-disable is set")
    else if first ≠ a ∧ first ≠ b ∧ first ≠ c then
      .error (.invariantViolation ("boot state: inconsistent vector " ++ flagsText flags))
    else if official then
      if first then .ok .verified
      else .error (.invariantViolation "boot state: official build is not verified")
    else .ok (if first then .selfSigned else .unverified)
  | _ => .error (.malformed s!"boot state: expecting 5 entries, got {flags.length}")

structure RootOfTrust where
  verifiedBootKey : Octets
  deviceLocked : Bool
  verifiedBootState : VerifiedBootState
  /-- Absent from records of the first versions. -/
  verifiedBootHash : Option Octets
  deriving DecidableEq, Repr

namespace RootOfTrust

/-- Three elements, or four with a hash. Their kinds are checked in the order state, hash, key,
lock, and the range of the state last. -/
def ofObject (x : Ber.Object) : Decoded RootOfTrust := do
  let seq ← x.asSequence "root-of-trust"
  let parts (key locked state : Ber.Object) (hash : Option Ber.Object) : Decoded RootOfTrust := do
    let state ← state.asInt "verified-boot-state"
    let hash ← hash.mapM (·.asOctets "verified-boot-hash")
    let key ← key.asOctets "verified-boot-key"
    let locked ← locked.asBool "device-locked"
    pure ⟨key, locked, ← VerifiedBootState.ofNumber state, hash⟩
  match seq with
  | [key, locked, state] => parts key locked state none
  | [key, locked, state, hash] => parts key locked state (some hash)
  | _ => .error (.malformed s!"root-of-trust: expecting 3 or 4 elements, got {seq.length}")

def decode (bs : Octets) : Decoded RootOfTrust := do
  ofObject (← Ber.Object.ofOctets "root-of-trust" bs)

end RootOfTrust

end AttestedKey
