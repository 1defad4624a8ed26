import AttestedKey.Proofs.RecordEncoding
import AttestedKey.Proofs.TaggedElements
import AttestedKey.Record.Attestation

/-! The three levels of a Knox record as layouts, and what follows for the record that is read: it
is what was written, whatever the order of the elements, and it says of the key what the key
description alone says. A number that no element has makes the record fail, but for those numbers
that the reader of tags cannot tell from an element's. -/

namespace AttestedKey

open Der

/-- The octets are the text in a type that lets it in. A BMPString has other octets than these, and
is not read as its text. -/
def Ber.TextWritten (s : String) (bs : Octets) : Prop :=
  ∃ t : StringType, t ≠ .bmp ∧ t.admits (Utf8.encode s) ∧
    bs = Der.write (UInt8.ofNat t.tag) (Utf8.encode s)

theorem Ber.TextWritten.encodes {s : String} {bs : Octets} (h : TextWritten s bs) (depth : Nat) :
    ∃ t, Encodes (depth + 1) bs (some (.characters t s)) := by
  obtain ⟨t, -, hadmits, rfl⟩ := h
  have hlead : (UInt8.ofNat t.tag).toNat = t.tag ∧ tagClass (UInt8.ofNat t.tag) = .universal ∧
      t.tag % 32 = t.tag ∧ t.tag ≠ 31 ∧ t.tag ≠ 16 ∧ t.tag ≠ 17 ∧ ¬ t.tag / 32 % 2 = 1 := by
    cases t <;> decide
  obtain ⟨hnat, hclass, hlow, h31, h16, h17, hprimitive⟩ := hlead
  have hencodes :=
    encodes_leaf depth hclass (by rw [hnat, hlow]; exact ⟨h31, h16, h17⟩) (Utf8.encode s)
  rw [hnat, hlow] at hencodes
  refine ⟨t.tag, ?_⟩
  have hleaf : leaf? ⟨.universal, t.tag / 32 % 2 = 1, t.tag, some (Utf8.encode s).length⟩
    (Utf8.encode s) =
      some (.characters t.tag s) := by
    unfold leaf?
    rw [StringType.ofTag?_tag]
    simp [hprimitive, StringType.text?, hadmits, Utf8.decode?_encode]
  exact hleaf ▸ hencodes

example : Ber.decodeUtf16? [0x00, 0x78] = some "x" ∧
    Ber.read [0x1E, 0x02, 0x00, 0x78] = some (.characters 30 "\x00x", []) := ⟨by decide, rfl⟩

theorem Ber.exists_textWritten (s : String) : ∃ bs, TextWritten s bs :=
  ⟨_, .utf8, by decide, rfl, rfl⟩

namespace Knox

/-! ### Values -/

namespace Form

def int (what : String) : Form Int64 where
  read x := x.asInt what
  Reads := Ber.Object.IsInt
  Written n bs := bs = writeInteger n.toInt
  read_eq_ok_iff _ _ := Ber.Object.asInt_eq_ok_iff
  read_written n bs h hlen what := by
    obtain rfl := h
    exact (Ber.encodes_integer 49 _).bind_ofOctets hlen what _ (Ber.asInt_integer n _)

def text (what : String) : Form String where
  read x := x.asText what
  Reads x s := ∃ t, x = .characters t s
  Written := Ber.TextWritten
  read_eq_ok_iff _ _ := Ber.Object.asText_eq_ok_iff
  read_written s bs h hlen what := by
    obtain ⟨t, ht⟩ := h.encodes 49
    exact ht.bind_ofOctets hlen what _ rfl

def octets (what : String) : Form Octets where
  read x := x.asOctets what
  Reads x b := x = .octetString b
  Written b bs := bs = writeOctets b
  read_eq_ok_iff _ _ := Ber.Object.asOctets_eq_ok_iff
  read_written b bs h hlen what := by
    obtain rfl := h
    exact (Ber.encodes_octets 49 b).bind_ofOctets hlen what _ rfl

def status (what : String) : Form Status := (int what).map Status.ofNumber

end Form

theorem Form.exists_written_some {α : Type} {form : Form α} {o : Option α}
    (h : ∀ a, o = some a → ∃ bs, form.Written a bs) (ho : o ≠ none) :
    ∃ bs, (form.map some).Written o bs := by
  obtain ⟨a, rfl⟩ := Option.ne_none_iff_exists'.1 ho
  obtain ⟨bs, hbs⟩ := h a rfl
  exact ⟨bs, a, hbs, rfl⟩

/-- Some number stands for the status; only for `other` of 0, 1 and 2 there is none. -/
def Status.IsProper (s : Status) : Prop := ∃ n, ofNumber n = s

theorem Status.exists_written {s : Status} (h : s.IsProper) (what : String) :
    ∃ bs, (Form.status what).Written s bs := by
  obtain ⟨n, rfl⟩ := h
  exact ⟨_, n, rfl, rfl⟩

theorem Status.isProper_of_read {s : Status} {what : String}
    (h : s = .notSupported ∨ ∃ x, (Form.status what).Reads x s) : s.IsProper := by
  obtain rfl | ⟨x, n, -, rfl⟩ := h
  · exact ⟨2, rfl⟩
  · exact ⟨n, rfl⟩

/-! ### Caller authentication -/

namespace CallerAuthentication

inductive Element
  | callerResult
  | callingPackage
  | callingPackageSignatures
  | callingPackageResult
  deriving DecidableEq

namespace Element

def Value : Element → Type
  | callerResult | callingPackageResult => Status
  | callingPackage | callingPackageSignatures => Option String

def number : Element → Nat
  | callerResult => 0
  | callingPackage => 1
  | callingPackageSignatures => 2
  | callingPackageResult => 3

def form : (k : Element) → Form k.Value
  | callerResult => .status "caller-auth-result"
  | callingPackage => (Form.text "calling-package").map some
  | callingPackageSignatures => (Form.text "calling-package-signatures").map some
  | callingPackageResult => .status "calling-package-auth-result"

end Element

def field (a : CallerAuthentication) : (k : Element) → k.Value
  | .callerResult => a.callerResult
  | .callingPackage => a.callingPackage
  | .callingPackageSignatures => a.callingPackageSignatures
  | .callingPackageResult => a.callingPackageResult

def update (a : CallerAuthentication) : (k : Element) → k.Value → CallerAuthentication
  | .callerResult, s => { a with callerResult := s }
  | .callingPackage, s => { a with callingPackage := s }
  | .callingPackageSignatures, s => { a with callingPackageSignatures := s }
  | .callingPackageResult, s => { a with callingPackageResult := s }

def layout : Layout CallerAuthentication where
  what := "auth-result"
  Key := Element
  Value := Element.Value
  keys := [.callerResult, .callingPackage, .callingPackageSignatures, .callingPackageResult]
  number := Element.number
  form := Element.form
  absent := {}
  field := field
  update := update
  decEq := inferInstance
  mem_keys k := by cases k <;> decide
  number_inj k j := by cases k <;> cases j <;> simp [Element.number]
  number_lt k := by cases k <;> decide
  field_update_self r k v := by cases k <;> rfl
  field_update_of_ne r k v j h := by
    cases k <;> cases j <;> first | rfl | exact absurd rfl h
  ext r r' h := by
    have h0 := h .callerResult
    have h1 := h .callingPackage
    have h2 := h .callingPackageSignatures
    have h3 := h .callingPackageResult
    cases r
    cases r'
    simp only [field] at h0 h1 h2 h3
    rw [h0, h1, h2, h3]

theorem set_eq (a : CallerAuthentication) (e : Nat × Ber.Object) : a.set e = layout.step a e := by
  obtain ⟨n, x⟩ := e
  cases h : layout.ofNumber? n with
  | none =>
    unfold Layout.step set
    rw [h]
    dsimp only
    split <;> first | rfl | cases h
  | some k =>
    obtain rfl := layout.ofNumber?_eq_some_iff.1 h
    cases k with
    | callerResult =>
      exact ((layout.step_eq (k := .callerResult) rfl a x).trans (bind_assoc ..)).symm
    | callingPackage =>
      exact ((layout.step_eq (k := .callingPackage) rfl a x).trans (bind_assoc ..)).symm
    | callingPackageSignatures =>
      exact ((layout.step_eq (k := .callingPackageSignatures) rfl a x).trans (bind_assoc ..)).symm
    | callingPackageResult =>
      exact ((layout.step_eq (k := .callingPackageResult) rfl a x).trans (bind_assoc ..)).symm

/-- What an authentication that every part has its default of means is none. -/
def given (a : CallerAuthentication) : Option CallerAuthentication :=
  if a = {} then none else some a

theorem ofObject_eq (x : Ber.Object) : ofObject x = (layout.recordForm.map given).read x := by
  unfold ofObject
  rw [funext₂ set_eq]
  exact (bind_assoc ..).symm

def IsProper (a : CallerAuthentication) : Prop :=
  a.callerResult.IsProper ∧ a.callingPackageResult.IsProper

theorem isProper_of_isRecord {x : Ber.Object} {a : CallerAuthentication} (h : layout.IsRecord x a) :
    a.IsProper :=
  ⟨Status.isProper_of_read (h.field_eq_or layout .callerResult),
    Status.isProper_of_read (h.field_eq_or layout .callingPackageResult)⟩

theorem exists_written {a : CallerAuthentication} (h : a.IsProper) :
    ∃ bs, layout.RecordWritten a bs := by
  refine layout.exists_recordWritten fun k hk => ?_
  cases k with
  | callerResult => exact Status.exists_written h.1 _
  | callingPackage => exact Form.exists_written_some (fun s _ => Ber.exists_textWritten s) hk
  | callingPackageSignatures =>
    exact Form.exists_written_some (fun s _ => Ber.exists_textWritten s) hk
  | callingPackageResult => exact Status.exists_written h.2 _

end CallerAuthentication

/-! ### Integrity -/

namespace Integrity

inductive Element
  | trustBoot
  | warranty
  | icd
  | kernel
  | system
  | authentication
  deriving DecidableEq

namespace Element

def Value : Element → Type
  | authentication => Option CallerAuthentication
  | _ => Status

def number : Element → Nat
  | trustBoot => 0
  | warranty => 1
  | icd => 2
  | kernel => 3
  | system => 4
  | authentication => 5

def form : (k : Element) → Form k.Value
  | trustBoot => .status "trust-boot"
  | warranty => .status "warranty"
  | icd => .status "icd"
  | kernel => .status "kernel"
  | system => .status "system"
  | authentication => CallerAuthentication.layout.recordForm.map CallerAuthentication.given

end Element

def field (i : Integrity) : (k : Element) → k.Value
  | .trustBoot => i.trustBoot
  | .warranty => i.warranty
  | .icd => i.icd
  | .kernel => i.kernel
  | .system => i.system
  | .authentication => i.authentication

def update (i : Integrity) : (k : Element) → k.Value → Integrity
  | .trustBoot, s => { i with trustBoot := s }
  | .warranty, s => { i with warranty := s }
  | .icd, s => { i with icd := s }
  | .kernel, s => { i with kernel := s }
  | .system, s => { i with system := s }
  | .authentication, a => { i with authentication := a }

def layout : Layout Integrity where
  what := "integrity-status"
  Key := Element
  Value := Element.Value
  keys := [.trustBoot, .warranty, .icd, .kernel, .system, .authentication]
  number := Element.number
  form := Element.form
  absent := {}
  field := field
  update := update
  decEq := inferInstance
  mem_keys k := by cases k <;> decide
  number_inj k j := by cases k <;> cases j <;> simp [Element.number]
  number_lt k := by cases k <;> decide
  field_update_self r k v := by cases k <;> rfl
  field_update_of_ne r k v j h := by
    cases k <;> cases j <;> first | rfl | exact absurd rfl h
  ext r r' h := by
    have h0 := h .trustBoot
    have h1 := h .warranty
    have h2 := h .icd
    have h3 := h .kernel
    have h4 := h .system
    have h5 := h .authentication
    cases r
    cases r'
    simp only [field] at h0 h1 h2 h3 h4 h5
    rw [h0, h1, h2, h3, h4, h5]

theorem set_eq (i : Integrity) (e : Nat × Ber.Object) : i.set e = layout.step i e := by
  obtain ⟨n, x⟩ := e
  cases h : layout.ofNumber? n with
  | none =>
    unfold Layout.step set
    rw [h]
    dsimp only
    split <;> first | rfl | cases h
  | some k =>
    obtain rfl := layout.ofNumber?_eq_some_iff.1 h
    cases k with
    | trustBoot => exact ((layout.step_eq (k := .trustBoot) rfl i x).trans (bind_assoc ..)).symm
    | warranty => exact ((layout.step_eq (k := .warranty) rfl i x).trans (bind_assoc ..)).symm
    | icd => exact ((layout.step_eq (k := .icd) rfl i x).trans (bind_assoc ..)).symm
    | kernel => exact ((layout.step_eq (k := .kernel) rfl i x).trans (bind_assoc ..)).symm
    | system => exact ((layout.step_eq (k := .system) rfl i x).trans (bind_assoc ..)).symm
    | authentication =>
      refine Eq.trans ?_ (layout.step_eq (k := .authentication) rfl i x).symm
      exact congrArg (· >>= fun a => pure { i with authentication := a })
        (CallerAuthentication.ofObject_eq x)

theorem ofObject_eq (x : Ber.Object) : ofObject x = layout.ofObject x := by
  unfold ofObject
  rw [funext₂ set_eq]
  rfl

structure IsProper (i : Integrity) : Prop where
  statuses : ∀ s ∈ [i.trustBoot, i.warranty, i.icd, i.kernel, i.system], s.IsProper
  authentication : ∀ a, i.authentication = some a → a ≠ {} ∧ a.IsProper

theorem isProper_of_isRecord {x : Ber.Object} {i : Integrity} (h : layout.IsRecord x i) :
    i.IsProper where
  statuses := by
    simp only [List.forall_mem_cons]
    exact ⟨Status.isProper_of_read (h.field_eq_or layout .trustBoot),
      Status.isProper_of_read (h.field_eq_or layout .warranty),
      Status.isProper_of_read (h.field_eq_or layout .icd), Status.isProper_of_read
      (h.field_eq_or layout .kernel), Status.isProper_of_read (h.field_eq_or layout .system),
      List.forall_mem_nil _⟩
  authentication a ha := by
    obtain hnone | ⟨inner, b, hb, hgiven⟩ := h.field_eq_or layout .authentication
    · cases ha.symm.trans hnone
    · have hsome : CallerAuthentication.given b = some a := hgiven.symm.trans ha
      unfold CallerAuthentication.given at hsome
      split at hsome
      · cases hsome
      · next hne =>
        cases hsome
        exact ⟨hne, CallerAuthentication.isProper_of_isRecord hb⟩

theorem exists_written {i : Integrity} (h : i.IsProper) : ∃ bs, layout.RecordWritten i bs := by
  obtain ⟨h0, h1, h2, h3, h4, -⟩ := by simpa only [List.forall_mem_cons] using h.statuses
  refine layout.exists_recordWritten fun k hk => ?_
  cases k with
  | trustBoot => exact Status.exists_written h0 _
  | warranty => exact Status.exists_written h1 _
  | icd => exact Status.exists_written h2 _
  | kernel => exact Status.exists_written h3 _
  | system => exact Status.exists_written h4 _
  | authentication =>
    obtain ⟨a, ha⟩ := Option.ne_none_iff_exists'.1 hk
    obtain ⟨hne, hproper⟩ := h.authentication a ha
    obtain ⟨bs, hbs⟩ := CallerAuthentication.exists_written hproper
    exact ⟨bs, a, hbs, ha.trans (if_neg hne).symm⟩

end Integrity

/-! ### The addition -/

namespace Addition

inductive Element
  | challenge
  | idAttestation
  | integrity
  | recordHash
  deriving DecidableEq

namespace Element

def Value : Element → Type
  | challenge | idAttestation => Option String
  | integrity => Option Integrity
  | recordHash => Option Octets

def number : Element → Nat
  | challenge => 0
  | idAttestation => 4
  | integrity => 5
  | recordHash => 6

def form : (k : Element) → Form k.Value
  | challenge => (Form.text "knox-challenge").map some
  | idAttestation => (Form.text "id-attest").map some
  | integrity => Integrity.layout.recordForm.map some
  | recordHash => (Form.octets "record-hash").map some

end Element

def field (a : Addition) : (k : Element) → k.Value
  | .challenge => a.challenge
  | .idAttestation => a.idAttestation
  | .integrity => a.integrity
  | .recordHash => a.recordHash

def update (a : Addition) : (k : Element) → k.Value → Addition
  | .challenge, s => { a with challenge := s }
  | .idAttestation, s => { a with idAttestation := s }
  | .integrity, i => { a with integrity := i }
  | .recordHash, b => { a with recordHash := b }

def layout : Layout Addition where
  what := "knox"
  Key := Element
  Value := Element.Value
  keys := [.challenge, .idAttestation, .integrity, .recordHash]
  number := Element.number
  form := Element.form
  absent := {}
  field := field
  update := update
  decEq := inferInstance
  mem_keys k := by cases k <;> decide
  number_inj k j := by cases k <;> cases j <;> simp [Element.number]
  number_lt k := by cases k <;> decide
  field_update_self r k v := by cases k <;> rfl
  field_update_of_ne r k v j h := by
    cases k <;> cases j <;> first | rfl | exact absurd rfl h
  ext r r' h := by
    have h0 := h .challenge
    have h1 := h .idAttestation
    have h2 := h .integrity
    have h3 := h .recordHash
    cases r
    cases r'
    simp only [field] at h0 h1 h2 h3
    rw [h0, h1, h2, h3]

theorem set_eq (a : Addition) (e : Nat × Ber.Object) : a.set e = layout.step a e := by
  obtain ⟨n, x⟩ := e
  cases h : layout.ofNumber? n with
  | none =>
    unfold Layout.step set
    rw [h]
    dsimp only
    split <;> first | rfl | cases h
  | some k =>
    obtain rfl := layout.ofNumber?_eq_some_iff.1 h
    cases k with
    | challenge => exact ((layout.step_eq (k := .challenge) rfl a x).trans (bind_assoc ..)).symm
    | idAttestation =>
      exact ((layout.step_eq (k := .idAttestation) rfl a x).trans (bind_assoc ..)).symm
    | integrity =>
      refine Eq.trans ?_ ((layout.step_eq (k := .integrity) rfl a x).trans (bind_assoc ..)).symm
      exact congrArg (· >>= fun i => pure { a with integrity := some i }) (Integrity.ofObject_eq x)
    | recordHash => exact ((layout.step_eq (k := .recordHash) rfl a x).trans (bind_assoc ..)).symm

theorem decode_eq (bs : Octets) :
    decode bs = Ber.Object.ofOctets "knox" bs >>= layout.ofObject := by
  unfold decode
  rw [funext₂ set_eq]
  rfl

theorem decode_eq_ok_iff {bs : Octets} {a : Addition} :
    decode bs = .ok a ↔ ∃ x, Ber.read bs = some (x, []) ∧ layout.IsRecord x a := by
  rw [decode_eq, bind_eq_ok_iff]
  exact exists_congr fun x => and_congr readWhole_eq_ok_iff layout.ofObject_eq_ok_iff

def IsProper (a : Addition) : Prop := ∀ i, a.integrity = some i → i.IsProper

theorem isProper_of_isRecord {x : Ber.Object} {a : Addition} (h : layout.IsRecord x a) :
    a.IsProper := by
  intro i hi
  obtain hnone | ⟨inner, j, hj, hsome⟩ := h.field_eq_or layout .integrity
  · cases hi.symm.trans hnone
  · cases hi.symm.trans hsome
    exact Integrity.isProper_of_isRecord hj

theorem exists_written {a : Addition} (h : a.IsProper) : ∃ bs, layout.RecordWritten a bs := by
  refine layout.exists_recordWritten fun k hk => ?_
  cases k with
  | challenge => exact Form.exists_written_some (fun s _ => Ber.exists_textWritten s) hk
  | idAttestation => exact Form.exists_written_some (fun s _ => Ber.exists_textWritten s) hk
  | integrity => exact Form.exists_written_some (fun i hi => Integrity.exists_written (h i hi)) hk
  | recordHash => exact Form.exists_written_some (fun b _ => ⟨_, rfl⟩) hk

end Addition

/-! ### Numbers that no element has -/

section

variable (such : ∀ {R : Type}, Layout R → Nat → Prop)

def CallerAuthentication.Has : Octets → Prop := HasElement fun n _ => such layout n

def Integrity.Has : Octets → Prop :=
  HasElement fun n c =>
    such layout n ∨ n = Element.number .authentication ∧ CallerAuthentication.Has such c

def Addition.Has : Octets → Prop :=
  HasElement fun n c => such layout n ∨ n = Element.number .integrity ∧ Integrity.Has such c

end

theorem Addition.Has.imp {such such' : ∀ {R : Type}, Layout R → Nat → Prop} {bs : Octets}
    (h : Has such bs) (himp : ∀ {R : Type} (L : Layout R) n, such L n → such' L n) : Has such' bs :=
  HasElement.imp h fun _ _ => Or.imp (himp _ _) fun ⟨hn, hintegrity⟩ =>
    ⟨hn, hintegrity.imp fun _ _ =>
    Or.imp (himp _ _) fun ⟨hn, hauthentication⟩ => ⟨hn, hauthentication.imp fun _ _ => himp _ _⟩⟩

theorem CallerAuthentication.has_isAliased {bs : Octets} (hlen : bs.length < 0x10000000000000000)
    {x : Ber.Object} (hx : Ber.read bs = some (x, [])) {a : CallerAuthentication}
    (h : layout.IsRecord x a) (hunknown : Has Layout.IsUnknown bs) : Has Layout.IsAliased bs := by
  obtain ⟨es, rfl, e, he, hunknown⟩ := hunknown
  obtain ⟨k, -, -, hnumber | ⟨haliased, -⟩, -⟩ := layout.exists_read_of_mem hlen hx h he
  · rw [← hnumber] at hunknown
    exact absurd hunknown (layout.not_isUnknown_number k)
  · exact ⟨es, rfl, e, he, haliased⟩

theorem Integrity.has_isAliased {bs : Octets} (hlen : bs.length < 0x10000000000000000)
    {x : Ber.Object} (hx : Ber.read bs = some (x, [])) {i : Integrity} (h : layout.IsRecord x i) :
    Has Layout.IsUnknown bs → Has Layout.IsAliased bs := by
  refine layout.hasElement_isAliased
    (j := .authentication) hlen hx h fun c inner v hc hinner hread => ?_
  obtain ⟨a, ha, -⟩ := hread
  exact CallerAuthentication.has_isAliased hc hinner ha

theorem Addition.has_isAliased {bs : Octets} (hlen : bs.length < 0x10000000000000000)
    {x : Ber.Object} (hx : Ber.read bs = some (x, [])) {a : Addition} (h : layout.IsRecord x a) :
    Has Layout.IsUnknown bs → Has Layout.IsAliased bs := by
  refine layout.hasElement_isAliased (j := .integrity) hlen hx h fun c inner v hc hinner hread => ?_
  obtain ⟨i, hi, -⟩ := hread
  exact Integrity.has_isAliased hc hinner hi

end Knox

open Knox

/-! ### The record -/

theorem KnoxRecord.decode_eq_ok_iff {standard knox : Octets} {r : KnoxRecord} :
    decode standard knox = .ok r ↔
    KeyDescription.decode standard = .ok r.keyDescription ∧
      Addition.decode knox = .ok r.addition := by
  unfold decode
  simp only [bind_eq_ok_iff]
  constructor
  · rintro ⟨k, hk, a, ha, h⟩
    cases h
    exact ⟨hk, ha⟩
  · rintro ⟨hk, ha⟩
    exact ⟨_, hk, _, ha, rfl⟩

structure Attestation.SaysAs (a b : Attestation) : Prop where
  attestationVersion : a.attestationVersion = b.attestationVersion
  attestationSecurityLevel : a.attestationSecurityLevel = b.attestationSecurityLevel
  keyMintVersion : a.keyMintVersion = b.keyMintVersion
  keyMintSecurityLevel : a.keyMintSecurityLevel = b.keyMintSecurityLevel
  challenge : a.challenge = b.challenge
  uniqueId : a.uniqueId = b.uniqueId
  softwareEnforced : a.softwareEnforced = b.softwareEnforced
  hardwareEnforced : a.hardwareEnforced = b.hardwareEnforced
  rootOfTrust : a.rootOfTrust = b.rootOfTrust
  purposes : a.purposes = b.purposes
  canAttestKeys : a.canAttestKeys = b.canAttestKeys

theorem Attestation.knox_saysAs_standard (r : KnoxRecord) :
    (knox r).SaysAs (standard r.keyDescription) := by
  constructor <;> rfl

structure Extensions.CarriesKnox (es : Extensions) (standard knox : Octets) : Prop where
  keyAttestation : (es.get? Extension.keyAttestation).map Extension.value = some standard
  entityToken : es.get? Extension.entityToken = none
  knox : (es.get? Extension.knox).map Extension.value = some knox

/-- What is left of extensions without that of Knox. -/
structure Extensions.IsWithoutKnox (es' es : Extensions) : Prop where
  keyAttestation : es'.get? Extension.keyAttestation = es.get? Extension.keyAttestation
  entityToken : es'.get? Extension.entityToken = es.get? Extension.entityToken
  knox : es'.get? Extension.knox = none

section

variable {es es' : Extensions} {standard knox : Octets} (hes : es.CarriesKnox standard knox)
include hes

theorem Attestation.ofExtensions_knox {r : KnoxRecord}
    (h : KnoxRecord.decode standard knox = .ok r) : ofExtensions es = .ok (.knox r) := by
  obtain ⟨s, hs, rfl⟩ := Option.map_eq_some_iff.1 hes.keyAttestation
  obtain ⟨k, hk, rfl⟩ := Option.map_eq_some_iff.1 hes.knox
  unfold ofExtensions
  rw [hs, hes.entityToken]
  dsimp only
  rw [hk]
  exact bind_eq_ok_iff.2 ⟨r, h, rfl⟩

theorem Attestation.ofExtensions_without_knox (hes' : es'.IsWithoutKnox es) {k : KeyDescription}
    (h : KeyDescription.decode standard = .ok k) : ofExtensions es' = .ok (.standard k) := by
  obtain ⟨s, hs, rfl⟩ := Option.map_eq_some_iff.1 hes.keyAttestation
  unfold ofExtensions
  rw [hes'.keyAttestation, hes'.entityToken, hs, hes.entityToken]
  dsimp only
  rw [hes'.knox]
  exact bind_eq_ok_iff.2 ⟨k, h, rfl⟩

end

namespace KnoxRecord

/-- What two extensions are decoded to. -/
structure IsKnoxDecoding (standard knox : Octets) (result : Decoded KnoxRecord) : Prop where
  written : ∀ k a, k.IsStandard → k.Written standard → Addition.layout.RecordWritten a knox →
    standard.length < 0x10000000000000000 → knox.length < 0x10000000000000000 → result = .ok ⟨k, a⟩
  /-- Whatever is not an element, or no element of its level, is an error, and of elements for the
  same field the last counts. -/
  ok_iff : ∀ r, result = .ok r ↔ KeyDescription.decode standard = .ok r.keyDescription ∧
    ∃ x, Ber.read knox = some (x, []) ∧ Addition.layout.IsRecord x r.addition
  isProper : ∀ r, result = .ok r → r.addition.IsProper
  saysAs : ∀ r k, result = .ok r → KeyDescription.decode standard = .ok k →
    (Attestation.knox r).SaysAs (.standard k)
  certificate : ∀ (es es' : Extensions) r, es.CarriesKnox standard knox → es'.IsWithoutKnox es →
    result = .ok r →
    Attestation.ofExtensions es = .ok (.knox r) ∧
      ∃ a, Attestation.ofExtensions es' = .ok a ∧ (Attestation.knox r).SaysAs a
  /-- Numbers of no element fail where those do that are taken for an element's. -/
  unknown_iff : knox.length < 0x10000000000000000 →
    ((Addition.Has Layout.IsUnknown knox → ∀ r, result ≠ .ok r) ↔
      (Addition.Has Layout.IsAliased knox → ∀ r, result ≠ .ok r))

/-- Whatever the octets are, and there are octets for every description and every addition that can
be read. -/
theorem decode_isKnoxDecoding (standard knox : Octets) :
    IsKnoxDecoding standard knox (decode standard knox) ∧
      ∀ (k : KeyDescription) (a : Addition), a.IsProper →
        ∃ standard knox, k.Written standard ∧ Addition.layout.RecordWritten a knox := by
  refine ⟨⟨?_, ?_, ?_, ?_, ?_, ?_⟩, ?_⟩
  · intro k a hk hstandard hknox hslen hklen
    refine decode_eq_ok_iff.2 ⟨KeyDescription.decode_of_written hk hstandard hslen, ?_⟩
    rw [Addition.decode_eq]
    exact hknox.read _ hklen _
  · intro r
    rw [decode_eq_ok_iff, Addition.decode_eq_ok_iff]
  · intro r h
    obtain ⟨x, -, hx⟩ := Addition.decode_eq_ok_iff.1 (decode_eq_ok_iff.1 h).2
    exact Addition.isProper_of_isRecord hx
  · intro r k h hk
    cases hk.symm.trans (decode_eq_ok_iff.1 h).1
    exact Attestation.knox_saysAs_standard r
  · intro es es' r hes hes' h
    refine ⟨Attestation.ofExtensions_knox hes h, _, ?_, Attestation.knox_saysAs_standard r⟩
    exact Attestation.ofExtensions_without_knox hes hes' (decode_eq_ok_iff.1 h).1
  · intro hlen
    refine ⟨fun h haliased => h (haliased.imp fun L n => Layout.IsAliased.isUnknown L),
      fun h hunknown r hr => ?_⟩
    obtain ⟨x, hx, hrecord⟩ := Addition.decode_eq_ok_iff.1 (decode_eq_ok_iff.1 hr).2
    exact h (Addition.has_isAliased hlen hx hrecord hunknown) r hr
  · intro k a ha
    obtain ⟨standard, hstandard⟩ := k.exists_written
    obtain ⟨knox, hknox⟩ := Addition.exists_written ha
    exact ⟨standard, knox, hstandard, hknox⟩

def bareDescription : KeyDescription where
  attestationVersion := 1
  attestationSecurityLevel := .software
  keyMintVersion := 1
  keyMintSecurityLevel := .software
  challenge := []
  uniqueId := none
  softwareEnforced := {}
  hardwareEnforced := {}

def bareStandard : Octets :=
  writeSequence [writeInteger 1, writeEnumerated 0, writeInteger 1, writeEnumerated 0,
  writeOctets [], writeOctets [], writeSequence [], writeSequence []]

/-- A UTF8String in the tag with number 2 ^ 32. -/
def aliasedChallenge : Octets := sequenceOf [(0x100000000, write 0x0C [0x78])]

/-- The tag of no element is taken for that of the challenge. -/
theorem decode_aliasedChallenge :
    bareDescription.Written bareStandard ∧
      aliasedChallenge = [0x30, 0x0A, 0xBF, 0x90, 0x80, 0x80, 0x80, 0x00, 0x03, 0x0C, 0x01, 0x78] ∧
      Addition.Has Layout.IsUnknown aliasedChallenge ∧
      decode bareStandard aliasedChallenge = .ok ⟨bareDescription, { challenge := some "x" }⟩ := by
  refine ⟨⟨_, _, ⟨[], [], .refl _, .nil, rfl⟩, ⟨[], [], .refl _, .nil, rfl⟩, rfl⟩, by decide, ?_,
    rfl⟩
  exact ⟨_, rfl, _, List.mem_singleton_self _, .inl rfl⟩

end KnoxRecord

end AttestedKey
