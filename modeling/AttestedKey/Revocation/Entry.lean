import AttestedKey.Json.Writer

/-! What a status list says about a certificate. -/

namespace AttestedKey

inductive RevocationStatus
  | revoked
  | suspended
  deriving DecidableEq, Repr

inductive RevocationReason
  | unspecified
  | keyCompromise
  | caCompromise
  | superseded
  | softwareFlaw
  | other
  deriving DecidableEq, Repr

structure RevocationEntry where
  status : RevocationStatus := .revoked
  reason : Option RevocationReason := none
  deriving DecidableEq, Repr

namespace RevocationStatus

def label : RevocationStatus → String
  | revoked => "REVOKED"
  | suspended => "SUSPENDED"

def ofLabel? (s : String) : Option RevocationStatus :=
  [revoked, suspended].find? fun x => x.label == s

def name : RevocationStatus → String
  | revoked => "Revoked"
  | suspended => "Suspended"

end RevocationStatus

namespace RevocationReason

def label : RevocationReason → String
  | unspecified => "UNSPECIFIED"
  | keyCompromise => "KEY_COMPROMISE"
  | caCompromise => "CA_COMPROMISE"
  | superseded => "SUPERSEDED"
  | softwareFlaw => "SOFTWARE_FLAW"
  | other => "OTHER"

/-- Reasons without a name of their own are `other`. -/
def ofLabel (s : String) : RevocationReason :=
  ([unspecified, keyCompromise, caCompromise, superseded,
    softwareFlaw].find? fun x => x.label == s).getD other

def name : RevocationReason → String
  | unspecified => "Unspecified"
  | keyCompromise => "KeyCompromise"
  | caCompromise => "CaCompromise"
  | superseded => "Superseded"
  | softwareFlaw => "SoftwareFlaw"
  | other => "Other"

end RevocationReason

namespace RevocationEntry

def text (e : RevocationEntry) : String :=
  e.status.name ++ ", reason " ++ match e.reason with
    | some r => "Some(" ++ r.name ++ ")"
    | none => "None"

end RevocationEntry

end AttestedKey
