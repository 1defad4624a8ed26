import AttestedKey.Octets

/-! Certificate extensions in certificate order, by object identifier in dotted form. -/

namespace AttestedKey

structure Extension where
  oid : String
  critical : Bool
  value : Octets
  deriving DecidableEq, Repr

abbrev Extensions := List Extension

namespace Extension

def keyAttestation : String := "1.3.6.1.4.1.11129.2.1.17"
def entityToken : String := "1.3.6.1.4.1.11129.2.1.25"
def knox : String := "1.3.6.1.4.1.236.11.3.23.7"
def provisioningInfo : String := "1.3.6.1.4.1.11129.2.1.30"
def keyUsage : String := "2.5.29.15"

/-- Critical and not key usage, or not critical and no attestation. -/
def isUnexpected (e : Extension) : Bool :=
  if e.critical then e.oid != keyUsage else e.oid != keyAttestation && e.oid != entityToken

end Extension

namespace Extensions

def get? (es : Extensions) (oid : String) : Option Extension := es.find? fun e => e.oid == oid

def has (es : Extensions) (oid : String) : Bool := (es.get? oid).isSome

def unexpected (es : Extensions) : List String :=
  (es.filter Extension.isUnexpected).map Extension.oid

end Extensions

end AttestedKey
