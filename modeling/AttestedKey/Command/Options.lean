import AttestedKey.Provisioning.Client

/-! The command line: a command and its options. An option may be written `--name value`,
`--name=value`, `-n value`, `-n=value` or `-nvalue`; short ones without a value may stand
together. -/

namespace AttestedKey

structure VerifyOptions where
  chain : String := "chain.der"
  revocation : Option String := none
  oemRoots : Option String := none
  fetchRevocation : Bool := false
  exportTo : Option String := none
  deriving DecidableEq, Repr

structure FetchOptions where
  host : String := ProvisioningClient.defaultAddress
  fingerprint : String := ""
  deriving DecidableEq, Repr

inductive Command where
  | verify (options : VerifyOptions)
  | fetchEndpointKeys (options : FetchOptions)
  deriving DecidableEq, Repr

namespace Command

structure Setting where
  name : String
  value : Option String := none
  deriving DecidableEq, Repr

structure Shape where
  valued : List (Option Char × String)
  flags : List String

namespace Shape

def verify : Shape where
  valued :=
    [(some 'c', "chain"), (some 'r', "revocation"), (some 'o', "oem-roots"), (none, "export")]
  flags := ["fetch-revocation"]

def fetch : Shape where
  valued := [(none, "host"), (some 'f', "fingerprint")]
  flags := []

def fullName? (s : Shape) (short : Char) : Option String :=
  (s.valued.find? fun v => v.1 == some short).map (·.2)

def takesValue (s : Shape) (name : String) : Bool := s.valued.any fun v => v.2 == name

end Shape

/-- A value given in its own argument must not look like an option. -/
def isValue (argument : List Char) : Bool :=
  match argument with
  | '-' :: _ :: _ => false
  | _ => true

def verbose : String := "verbose"

/-- Short options that stand together, the last with its value if it takes one; the value may be
the next argument. Gives the settings and how many further arguments were taken. -/
def shortSettings (shape : Shape) (next : Option (List Char)) :
    List Char → Option (List Setting × Nat)
  | [] => some ([], 0)
  | 'v' :: cs => (shortSettings shape next cs).map fun (settings, taken) =>
    (⟨verbose, none⟩ :: settings, taken)
  | c :: cs => do
    let name ← shape.fullName? c
    match cs with
    | '=' :: value => some ([⟨name, some (String.ofList value)⟩], 0)
    | _ :: _ => some ([⟨name, some (String.ofList cs)⟩], 0)
    | [] =>
      let value ← next
      if isValue value then some ([⟨name, some (String.ofList value)⟩], 1) else none

def longSetting (shape : Shape) (next : Option (List Char)) (cs : List Char) :
    Option (List Setting × Nat) := do
  let name := String.ofList (cs.takeWhile (· != '='))
  match cs.dropWhile (· != '=') with
  | _ :: value =>
    if shape.takesValue name then some ([⟨name, some (String.ofList value)⟩], 0) else none
  | [] =>
    if shape.takesValue name then
      let value ← next
      if isValue value then some ([⟨name, some (String.ofList value)⟩], 1) else none
    else if name == verbose || shape.flags.contains name then some ([⟨name, none⟩], 0)
    else none

def settings (shape : Shape) : Nat → List (List Char) → Option (List Setting)
  | _, [] => some []
  | 0, _ :: _ => none
  | n + 1, argument :: rest => do
    let (found, taken) ← match argument with
      | ['-', '-'] => if rest.isEmpty then some ([], 0) else none
      | '-' :: '-' :: cs => longSetting shape rest.head? cs
      | '-' :: c :: cs => shortSettings shape rest.head? (c :: cs)
      | _ => none
    pure (found ++ (← settings shape n (rest.drop taken)))

/-- All options but verbosity are given at most once. -/
def areDistinct (settings : List Setting) : Bool :=
  let names := (settings.filter fun s => s.name != verbose).map (·.name)
  names.eraseDups.length == names.length

def valueOf? (settings : List Setting) (name : String) : Option String :=
  (settings.find? fun s => s.name == name).bind (·.value)

def verifyOptions (settings : List Setting) : VerifyOptions where
  chain := (valueOf? settings "chain").getD "chain.der"
  revocation := valueOf? settings "revocation"
  oemRoots := valueOf? settings "oem-roots"
  fetchRevocation := settings.any fun s => s.name == "fetch-revocation"
  exportTo := valueOf? settings "export"

def fetchOptions (settings : List Setting) : FetchOptions where
  host := (valueOf? settings "host").getD ProvisioningClient.defaultAddress
  fingerprint := (valueOf? settings "fingerprint").getD ""

def settingsOf? (shape : Shape) (arguments : List String) : Option (List Setting) := do
  let found ← settings shape arguments.length (arguments.map String.toList)
  if areDistinct found then some found else none

/-- Arguments that ask for more output and may stand before the command. -/
def isVerbosity (argument : String) : Bool :=
  argument == "--verbose" || match argument.toList with
    | '-' :: c :: cs => (c :: cs).all (· == 'v')
    | _ => false

def ofArguments? (arguments : List String) : Option Command :=
  match arguments.dropWhile isVerbosity with
  | "verify" :: rest => (settingsOf? .verify rest).map fun s => verify (verifyOptions s)
  | "fetch-eek" :: rest => (settingsOf? .fetch rest).map fun s => fetchEndpointKeys (fetchOptions s)
  | _ => none

def usage : String :=
  "usage: verify [-c FILE] [-r FILE] [-o FILE] [--fetch-revocation] [--export FILE] | " ++
    "fetch-eek [--host URL] [-f TEXT]"

end Command

end AttestedKey
