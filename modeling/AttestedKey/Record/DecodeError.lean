/-! Why a record does not decode. -/

namespace AttestedKey

inductive DecodeError where
  /-- Not the encoding at all; names the object that was to be read. -/
  | syntaxError (detail : String)
  | unknownTag (detail : String)
  | typeMismatch (detail : String)
  | malformed (detail : String)
  | duplicatedTag (detail : String)
  | missingExtension (detail : String)
  | noAttestationExtension
  | multipleAttestationExtensions
  | invariantViolation (detail : String)
  deriving DecidableEq, Repr

namespace DecodeError

def message : DecodeError → String
  | syntaxError d => "Syntax error: " ++ d
  | unknownTag d => "Unknown tag: " ++ d
  | typeMismatch d => "Type mismatch: " ++ d
  | malformed d => "Malformed structure: " ++ d
  | duplicatedTag d => "Duplicated tag: " ++ d
  | missingExtension d => "Missing extension: " ++ d
  | noAttestationExtension => "No attestation extension found"
  | multipleAttestationExtensions => "Multiple attestation extensions found"
  | invariantViolation d => "Invariant violation: " ++ d

def detail : DecodeError → String
  | syntaxError d | unknownTag d | typeMismatch d | malformed d | duplicatedTag d
  | missingExtension d | invariantViolation d => d
  | e => e.message

end DecodeError

abbrev Decoded := Except DecodeError

end AttestedKey
