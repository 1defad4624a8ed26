import AttestedKey.Proofs.DerEncoding
import AttestedKey.Proofs.Properties
import AttestedKey.Proofs.Text
import AttestedKey.Record.KeyDescription

/-! Writing a key description, and reading it back. Sets are written in any order of their members
and lists in any order of their properties, so a record has many encodings, and `Written` relates
it to each. Every value that is written reads as itself (`PropertyKind.Written.read`), hence every
property, and as no property is written twice the list does too; the record follows field by
field. -/

namespace AttestedKey

open Der

/-! ### What is written -/

namespace RootOfTrust

def parts (r : RootOfTrust) : List Octets :=
  [writeOctets r.verifiedBootKey, writeBool r.deviceLocked,
    writeEnumerated r.verifiedBootState.number.toInt.toNat] ++
    r.verifiedBootHash.toList.map writeOctets

def der (r : RootOfTrust) : Octets := writeSequence r.parts

end RootOfTrust

namespace ApplicationId

def derOfPackage (p : Package) : Octets :=
  writeSequence [writeOctets (Utf8.encode p.name), writeInteger p.version.toInt]

def der (a : ApplicationId) : Octets :=
  writeSequence [writeSet (a.packages.map derOfPackage), writeSet (a.digests.map writeOctets)]

end ApplicationId

/-- The octets are the object of the value. -/
def PropertyKind.Written : (k : PropertyKind) → k.Value → Octets → Prop
  | int, n, bs => bs = writeInteger (Int64.toInt n)
  | uint, n, bs => bs = writeInteger (UInt64.toNat n)
  | ints, s, bs =>
    ∃ ns : List Int64, ns.Perm (NumberSet.toList s) ∧
      bs = writeSet (ns.map fun n => writeInteger n.toInt)
  | date, t, bs => bs = writeInteger (Instant.millis t)
  | flag, _, bs => bs = Der.null
  | octets, b, bs => bs = writeOctets b
  | text, s, bs => bs = writeOctets (Utf8.encode s)
  | rootOfTrust, r, bs => bs = RootOfTrust.der r
  | applicationId, a, bs => bs = writeOctets (ApplicationId.der a)

def Tag.all : List Tag :=
  [.purpose, .algorithm, .keySize, .digest, .padding, .ecCurve, .rsaPublicExponent, .mgfDigest,
    .rollbackResistance, .earlyBootOnly, .activeDateTime, .originationExpireDateTime,
    .usageExpireDateTime, .usageCountLimit, .noAuthRequired, .userAuthType, .authTimeout,
    .allowWhileOnBody, .trustedUserPresenceRequired, .trustedConfirmationRequired,
    .unlockedDeviceRequired, .allApplications, .applicationId, .creationDateTime,
    .origin, .rollbackResistant, .rootOfTrust, .osVersion, .osPatchLevel, .attestationApplicationId,
    .attestationIdBrand, .attestationIdDevice, .attestationIdProduct, .attestationIdSerial,
    .attestationIdImei, .attestationIdMeid, .attestationIdManufacturer, .attestationIdModel,
    .vendorPatchLevel, .bootPatchLevel, .deviceUniqueAttestation, .attestationIdSecondImei,
    .moduleHash]

theorem Tag.mem_all (t : Tag) : t ∈ Tag.all := by cases t <;> decide

theorem Tag.nodup_all : Tag.all.Nodup := by decide

abbrev Property := Σ t : Tag, t.kind.Value

def Property.Written (p : Property) (bs : Octets) : Prop :=
  ∃ content, p.1.kind.Written p.2 content ∧ bs = writeExplicit p.1.number content

namespace AuthorizationList

def properties (l : AuthorizationList) : List Property :=
  Tag.all.filterMap fun t => (l.value? t).map fun x => ⟨t, x⟩

def Written (l : AuthorizationList) (bs : Octets) : Prop :=
  ∃ ps parts, ps.Perm l.properties ∧ List.Forall₂ Property.Written ps parts ∧
    bs = writeSequence parts

end AuthorizationList

namespace KeyDescription

/-- The octets are the SEQUENCE of the eight elements; without a unique id there is an empty one. -/
def Written (k : KeyDescription) (bs : Octets) : Prop :=
  ∃ software hardware, k.softwareEnforced.Written software ∧ k.hardwareEnforced.Written hardware ∧
    bs = writeSequence [writeInteger k.attestationVersion.toInt,
      writeEnumerated k.attestationSecurityLevel.number.toInt.toNat,
      writeInteger k.keyMintVersion.toInt,
      writeEnumerated k.keyMintSecurityLevel.number.toInt.toNat, writeOctets k.challenge,
      writeOctets (k.uniqueId.getD []), software, hardware]

/-- A unique id is not empty, and only tokens state the level of a list. -/
structure IsStandard (k : KeyDescription) : Prop where
  uniqueId : k.uniqueId ≠ some []
  software : k.softwareEnforced.securityLevel = none
  hardware : k.hardwareEnforced.securityLevel = none

end KeyDescription

/-! ### Values -/

namespace NumberSet

theorem mem_foldl_insert {ns : List Int64} {s : NumberSet} {k : Int64} :
    k ∈ (ns.foldl (fun s n => s.insert n) s).toList ↔ k ∈ ns ∨ k ∈ s.toList := by
  induction ns generalizing s with
  | nil => simp
  | cons n ns ih =>
    rw [List.foldl_cons, ih, mem_toList_insert, List.mem_cons]
    tauto

theorem nodup_toList (s : NumberSet) : s.toList.Nodup :=
  s.increasing.imp fun h he => by
    rw [he, Int64.lt_iff_toInt_lt] at h
    exact lt_irrefl _ h

/-- The members in any order, and any of them more than once, are the set. -/
theorem ofList_eq_of_mem {ns : List Int64} {s : NumberSet} (h : ∀ k, k ∈ ns ↔ k ∈ s.toList) :
    ofList ns = s := by
  have hmem : ∀ k, k ∈ (ofList ns).toList ↔ k ∈ s.toList := by
    intro k
    rw [ofList, mem_foldl_insert, h]
    simp [empty]
  have hperm := (List.perm_ext_iff_of_nodup (nodup_toList _) (nodup_toList s)).2 hmem
  -- both are increasing, and that leaves one order for the same members
  have hlist : (ofList ns).toList = s.toList := by
    refine hperm.eq_of_pairwise (fun a b _ _ hab hba => ?_) (ofList ns).increasing s.increasing
    rw [Int64.lt_iff_toInt_lt] at hab hba
    omega
  exact NumberSet.mk.injEq .. ▸ hlist

end NumberSet

namespace Ber.Object

theorem asInt_enumerated (n : Int64) (h : 0 ≤ n.toInt) (what : String) :
    (enumerated n.toInt.toNat).asInt what = .ok n := by
  have hint : ((n.toInt.toNat : Nat) : Int) = n.toInt := Int.toNat_of_nonneg h
  rw [asInt, bind_eq_ok_iff]
  exact ⟨((n.toInt.toNat : Nat) : Int), rfl, asInt64_eq_ok_iff.2 hint⟩

end Ber.Object

theorem mapM_map_eq_ok {α β : Type} {object : α → β} {read : β → Decoded α}
    (h : ∀ a, read (object a) = .ok a) (as : List α) : (as.map object).mapM read = .ok as := by
  rw [mapM_eq_ok_iff, List.forall₂_map_left_iff, List.forall₂_same]
  exact fun a _ => h a

namespace RootOfTrust

def objects (r : RootOfTrust) : List Ber.Object :=
  [.octetString r.verifiedBootKey, .boolean r.deviceLocked,
    .enumerated r.verifiedBootState.number.toInt.toNat] ++
    r.verifiedBootHash.toList.map .octetString

theorem encodes_der (depth : Nat) (r : RootOfTrust) :
    Ber.Encodes (depth + 2) r.der (some (.sequence r.objects)) := by
  have hstate : r.verifiedBootState.number.toInt.toNat < 128 := by
    cases r.verifiedBootState <;> decide
  refine Ber.encodes_sequence_some
    (List.rel_append ?_ (Ber.forall₂_encodes (Ber.encodes_octets depth) _))
  exact .cons (Ber.encodes_octets depth _) (.cons (Ber.encodes_bool depth _)
    (.cons (Ber.encodes_enumerated depth hstate) .nil))

theorem ofObject_objects (r : RootOfTrust) : ofObject (.sequence r.objects) = .ok r := by
  obtain ⟨key, locked, state, hash⟩ := r
  have hnonneg : 0 ≤ state.number.toInt := by cases state <;> decide
  have hnumber := Ber.Object.asInt_enumerated state.number hnonneg "verified-boot-state"
  have hstate := VerifiedBootState.ofNumber_number state
  -- the kind of the state is checked first, its range last
  refine bind_eq_ok_iff.2 ⟨_, rfl, ?_⟩
  cases hash with
  | none =>
    exact bind_eq_ok_iff.2 ⟨_, hnumber, bind_eq_ok_iff.2 ⟨none, rfl, bind_eq_ok_iff.2 ⟨key, rfl,
      bind_eq_ok_iff.2 ⟨locked, rfl, bind_eq_ok_iff.2 ⟨_, hstate, rfl⟩⟩⟩⟩⟩
  | some hash =>
    exact bind_eq_ok_iff.2 ⟨_, hnumber,
      bind_eq_ok_iff.2 ⟨some hash, rfl, bind_eq_ok_iff.2 ⟨key, rfl,
      bind_eq_ok_iff.2 ⟨locked, rfl, bind_eq_ok_iff.2 ⟨_, hstate, rfl⟩⟩⟩⟩⟩

end RootOfTrust

namespace ApplicationId

def objectOfPackage (p : Package) : Ber.Object :=
  .sequence [.octetString (Utf8.encode p.name), .integer (integerContent p.version.toInt)]

def object (a : ApplicationId) : Ber.Object :=
  .sequence [.set (a.packages.map objectOfPackage), .set (a.digests.map .octetString)]

theorem encodes_derOfPackage (depth : Nat) (p : Package) :
    Ber.Encodes (depth + 2) (derOfPackage p) (some (objectOfPackage p)) :=
  Ber.encodes_sequence_some
    (.cons (Ber.encodes_octets depth _) (.cons (Ber.encodes_integer depth _) .nil))

theorem encodes_der (depth : Nat) (a : ApplicationId) :
    Ber.Encodes (depth + 4) a.der (some a.object) :=
  Ber.encodes_sequence_some
    (.cons (Ber.encodes_set_some (Ber.forall₂_encodes (encodes_derOfPackage depth) _))
      (.cons (Ber.encodes_set_some (Ber.forall₂_encodes (Ber.encodes_octets (depth + 1)) _)) .nil))

theorem ofObject_objectOfPackage (p : Package) : Package.ofObject (objectOfPackage p) = .ok p := by
  have hversion := Ber.asInt_integer p.version "version"
  refine (bind_ok hversion _).trans ?_
  rw [Utf8.decodeLossy_encode]
  rfl

theorem decode_der {a : ApplicationId} (h : a.der.length < 0x10000000000000000) :
    decode a.der = .ok a := by
  have hpackages := mapM_map_eq_ok ofObject_objectOfPackage a.packages
  have hdigests : (a.digests.map Ber.Object.octetString).mapM (·.asOctets "signature-digest") =
    .ok a.digests :=
    mapM_map_eq_ok (fun bs => show (Ber.Object.octetString bs).asOctets "signature-digest" =
      .ok bs from rfl) a.digests
  refine (encodes_der 46 a).bind_ofOctets h _ _ ?_
  refine (bind_ok hpackages _).trans ?_
  exact (bind_ok hdigests _).trans rfl

end ApplicationId

namespace PropertyKind

theorem date_integer (t : Instant) (what : String) :
    PropertyValue.date what (Ber.Object.integer (integerContent t.millis)) = .ok t := by
  obtain ⟨hlo, hhi⟩ := t.valid
  have hn : (Int64.ofInt t.millis).toInt = t.millis :=
    Int64.toInt_ofInt_of_le (by simp; omega) (by simp; omega)
  have hint := Ber.asInt_integer (Int64.ofInt t.millis) what
  rw [hn] at hint
  refine (bind_ok hint _).trans ?_
  rw [hn, Instant.ofMillis?, dif_pos t.valid]

/-- What is written reads as the value. -/
theorem Written.read {k : PropertyKind} {x : k.Value} {bs : Octets} (h : k.Written x bs)
    (hlen : bs.length < 0x10000000000000000) (what : String) :
    (Ber.Object.ofOctets what bs >>= fun o => k.read what o) = .ok x := by
  cases k with
  | int =>
    obtain rfl := h
    exact (Ber.encodes_integer 49 _).bind_ofOctets hlen what (fun o => int.read what o)
      (Ber.asInt_integer x what)
  | uint =>
    obtain rfl := h
    exact (Ber.encodes_integer 49 _).bind_ofOctets hlen what (fun o => uint.read what o)
      (Ber.asUInt_integer x what)
  | ints =>
    obtain ⟨ns, hperm, rfl⟩ := h
    have hset :=
      Ber.encodes_set_some
      (Ber.forall₂_encodes (fun n : Int64 => Ber.encodes_integer 48 n.toInt) ns)
    have hread := mapM_map_eq_ok (fun n : Int64 => Ber.asInt_integer n what) ns
    refine hset.bind_ofOctets hlen what (fun o => ints.read what o) ((bind_ok hread _).trans ?_)
    exact congrArg Except.ok (NumberSet.ofList_eq_of_mem fun k => hperm.mem_iff)
  | date =>
    obtain rfl := h
    exact (Ber.encodes_integer 49 _).bind_ofOctets hlen what (fun o => date.read what o)
      (date_integer x what)
  | flag =>
    obtain rfl := h
    exact (Ber.encodes_null 49).bind_ofOctets hlen what (fun o => flag.read what o) rfl
  | octets =>
    obtain rfl := h
    exact (Ber.encodes_octets 49 _).bind_ofOctets hlen what (fun o => octets.read what o) rfl
  | text =>
    obtain rfl := h
    exact (Ber.encodes_octets 49 _).bind_ofOctets hlen what (fun o => text.read what o)
      (congrArg Except.ok (Utf8.decodeLossy_encode x))
  | rootOfTrust =>
    obtain rfl := h
    exact (RootOfTrust.encodes_der 48 x).bind_ofOctets hlen what (fun o => rootOfTrust.read what o)
      (RootOfTrust.ofObject_objects x)
  | applicationId =>
    obtain rfl := h
    exact (Ber.encodes_octets 49 _).bind_ofOctets hlen what (fun o => applicationId.read what o)
      (ApplicationId.decode_der (Ber.length_content_lt hlen))

theorem exists_written (k : PropertyKind) (x : k.Value) : ∃ bs, k.Written x bs := by
  cases k with
  | ints => exact ⟨_, NumberSet.toList x, .refl _, rfl⟩
  | _ => exact ⟨_, rfl⟩

end PropertyKind

/-! ### Properties and lists -/

namespace Property

def entry (p : Property) : PropertyEntry := .property p.1 p.2

theorem tagNumber?_number (t : Tag) : Ber.tagNumber? t.number = some t.number := by cases t <;> rfl

theorem Written.encodes {p : Property} {bs : Octets} (h : p.Written bs) (depth : Nat) :
    ∃ o, Ber.Encodes (depth + 1) bs (some o) ∧
      (bs.length < 0x10000000000000000 → PropertyEntry.ofObject? o = some p.entry) := by
  obtain ⟨content, hcontent, rfl⟩ := h
  have hencodes := Ber.encodes_explicit depth p.1.number content
  rw [tagNumber?_number] at hencodes
  refine ⟨_, hencodes, fun hlen => ?_⟩
  have hread := hcontent.read (Ber.length_explicit_lt hlen) p.1.label
  rw [← toOption_eq_some_iff, toOption_bind] at hread
  have hentry := congrArg (Option.map (PropertyEntry.property p.1)) hread
  rw [Option.map_bind] at hentry
  change (Tag.ofNumber? p.1.number).bind
    (fun t => (Ber.Object.ofOctets t.label content).toOption.bind _) = _
  rw [Tag.ofNumber?_number, Option.bind_some]
  exact hentry

theorem exists_objects {ps : List Property} {parts : List Octets}
    (h : List.Forall₂ Written ps parts) (depth : Nat) :
    ∃ objects, List.Forall₂ (fun bs x => Ber.Encodes (depth + 1) bs (some x)) parts objects ∧
      (parts.flatten.length < 0x10000000000000000 →
        objects.mapM PropertyEntry.ofObject? = some (ps.map entry)) := by
  induction h with
  | nil => exact ⟨[], .nil, fun _ => rfl⟩
  | cons hp _ ih =>
    obtain ⟨o, ho, hread⟩ := hp.encodes depth
    obtain ⟨objects, hobjects, hreads⟩ := ih
    refine ⟨o :: objects, .cons ho hobjects, fun hlen => ?_⟩
    rw [List.flatten_cons, List.length_append] at hlen
    rw [List.mapM_cons, hread (by omega), hreads (by omega)]
    rfl

theorem exists_written (p : Property) : ∃ bs, p.Written bs := by
  obtain ⟨content, h⟩ := p.1.kind.exists_written p.2
  exact ⟨_, content, h, rfl⟩

end Property

namespace AuthorizationList

theorem mem_properties {l : AuthorizationList} {t : Tag} {x : t.kind.Value} :
    (⟨t, x⟩ : Property) ∈ l.properties ↔ l.value? t = some x := by
  rw [properties, List.mem_filterMap]
  constructor
  · rintro ⟨u, -, hu⟩
    obtain ⟨y, hy, he⟩ := Option.map_eq_some_iff.1 hu
    cases he
    exact hy
  · intro h
    exact ⟨t, t.mem_all, by rw [h]; rfl⟩

theorem nodupKeys_properties (l : AuthorizationList) :
    (l.properties.map Property.entry).NodupKeys := by
  unfold List.NodupKeys List.keys List.Nodup properties
  rw [List.pairwise_map, List.pairwise_map, List.pairwise_filterMap]
  refine Tag.nodup_all.imp fun {t u} hne e he e' he' heq => hne ?_
  obtain ⟨x, -, rfl⟩ := Option.map_eq_some_iff.1 he
  obtain ⟨y, -, rfl⟩ := Option.map_eq_some_iff.1 he'
  exact Option.some.inj heq

theorem dlookup_properties (l : AuthorizationList) (t : Tag) :
    (l.properties.map Property.entry).dlookup (some t) = l.value? t := by
  refine Option.ext fun x =>
    (List.mem_dlookup_iff (nodupKeys_properties l)).trans (Iff.trans ?_ mem_properties)
  rw [List.mem_map]
  constructor
  · rintro ⟨⟨u, y⟩, hmem, he⟩
    cases he
    exact hmem
  · intro h
    exact ⟨_, h, rfl⟩

theorem ofEntries_properties {l : AuthorizationList} (hlevel : l.securityLevel = none) :
    ofEntries (l.properties.map Property.entry) = l := by
  have hnone : (l.properties.map Property.entry).dlookup none = none := by
    rw [List.dlookup_eq_none]
    intro h
    obtain ⟨e, he, hkey⟩ := List.mem_map.1 h
    obtain ⟨p, -, rfl⟩ := List.mem_map.1 he
    exact Option.some_ne_none _ hkey
  rw [ofEntries, hnone]
  simp only [dlookup_properties]
  exact (congrArg (ofValues · l.value?) hlevel.symm).trans (ofValues_value? l)

theorem Written.encodes {l : AuthorizationList} {bs : Octets} (h : l.Written bs)
    (hlevel : l.securityLevel = none) (depth : Nat) :
    ∃ o, Ber.Encodes (depth + 2) bs (some o) ∧
      (bs.length < 0x10000000000000000 → ofObject o = .ok l) := by
  obtain ⟨ps, parts, hperm, hparts, rfl⟩ := h
  obtain ⟨objects, hobjects, hread⟩ := Property.exists_objects hparts depth
  refine ⟨_, Ber.encodes_sequence_some hobjects, fun hlen => ?_⟩
  rw [← toOption_eq_some_iff, toOption_ofObject, hread (Ber.length_content_lt hlen),
    Option.bind_some, ofDistinct?_eq_of_perm (hperm.map _), ofDistinct?,
    if_pos (nodupKeys_properties l), ofEntries_properties hlevel]

theorem exists_written (l : AuthorizationList) : ∃ bs, l.Written bs := by
  choose write hwrite using Property.exists_written
  refine ⟨_, l.properties, l.properties.map write, .refl _, ?_, rfl⟩
  rw [List.forall₂_map_right_iff, List.forall₂_same]
  exact fun p _ => hwrite p

end AuthorizationList

/-! ### The record -/

namespace SecurityLevel

theorem asInt_number (l : SecurityLevel) (what : String) :
    (Ber.Object.enumerated l.number.toInt.toNat).asInt what = .ok l.number :=
  Ber.Object.asInt_enumerated _ (by cases l <;> decide) what

theorem number_lt (l : SecurityLevel) : l.number.toInt.toNat < 128 := by cases l <;> decide

end SecurityLevel

namespace KeyDescription

theorem decode_of_written {k : KeyDescription} (hk : k.IsStandard) {bs : Octets} (h : k.Written bs)
    (hlen : bs.length < 0x10000000000000000) : decode bs = .ok k := by
  obtain ⟨software, hardware, hsoftware, hhardware, rfl⟩ := h
  obtain ⟨s, hs, hreads⟩ := hsoftware.encodes hk.software 47
  obtain ⟨t, ht, hreadt⟩ := hhardware.encodes hk.hardware 47
  have hsoftwarelen := Ber.length_part_lt hlen (show software ∈ _ by simp)
  have hhardwarelen := Ber.length_part_lt hlen (show hardware ∈ _ by simp)
  have hencodes :=
    Ber.encodes_sequence_some (.cons (Ber.encodes_integer 48 k.attestationVersion.toInt)
    (.cons (Ber.encodes_enumerated 48 k.attestationSecurityLevel.number_lt)
    (.cons (Ber.encodes_integer 48 k.keyMintVersion.toInt)
    (.cons (Ber.encodes_enumerated 48 k.keyMintSecurityLevel.number_lt)
    (.cons (Ber.encodes_octets 48 k.challenge)
    (.cons (Ber.encodes_octets 48 (k.uniqueId.getD [])) (.cons hs (.cons ht .nil))))))))
  refine hencodes.bind_ofOctets hlen _ ofObject ?_
  have huniqueId : (if (k.uniqueId.getD []).isEmpty then none else some (k.uniqueId.getD [])) =
    k.uniqueId := by
    have hne := hk.uniqueId
    cases hu : k.uniqueId with
    | none => rfl
    | some u =>
      rw [hu] at hne
      cases u with
      | nil => exact absurd rfl hne
      | cons b u => rfl
  -- the elements in the order they are read in, after the kind of the unique id
  refine (bind_ok (Ber.asInt_integer k.attestationVersion _) _).trans ?_
  refine (bind_ok (SecurityLevel.asInt_number k.attestationSecurityLevel _) _).trans ?_
  refine (bind_ok (SecurityLevel.ofNumber_number _) _).trans ?_
  refine (bind_ok (Ber.asInt_integer k.keyMintVersion _) _).trans ?_
  refine (bind_ok (SecurityLevel.asInt_number k.keyMintSecurityLevel _) _).trans ?_
  refine (bind_ok (SecurityLevel.ofNumber_number _) _).trans ?_
  refine (bind_ok (hreads hsoftwarelen) _).trans ?_
  refine (bind_ok (hreadt hhardwarelen) _).trans ?_
  rw [huniqueId]
  rfl

theorem exists_written (k : KeyDescription) : ∃ bs, k.Written bs := by
  obtain ⟨software, hsoftware⟩ := k.softwareEnforced.exists_written
  obtain ⟨hardware, hhardware⟩ := k.hardwareEnforced.exists_written
  exact ⟨_, software, hardware, hsoftware, hhardware, rfl⟩

/-- A record can be written, and however it is, in octets that a length can count, it reads as
itself; so what is written for different records never reads the same. -/
theorem decode_written (k : KeyDescription) (h : k.IsStandard) :
    (∃ bs, k.Written bs) ∧
    (∀ bs, k.Written bs → bs.length < 0x10000000000000000 → decode bs = .ok k) ∧
    ∀ k' bs bs', k'.IsStandard → k ≠ k' → k.Written bs → k'.Written bs' →
      bs.length < 0x10000000000000000 →
      bs'.length < 0x10000000000000000 → decode bs ≠ decode bs' := by
  refine ⟨k.exists_written, fun bs hbs hlen => decode_of_written h hbs hlen, ?_⟩
  intro k' bs bs' h' hne hbs hbs' hlen hlen' heq
  rw [decode_of_written h hbs hlen, decode_of_written h' hbs' hlen'] at heq
  exact hne (Except.ok.inj heq)

def signingKey : KeyDescription where
  attestationVersion := 400
  attestationSecurityLevel := .trustedEnvironment
  keyMintVersion := 400
  keyMintSecurityLevel := .strongBox
  challenge := [0x61, 0x62, 0x63]
  uniqueId := none
  softwareEnforced := {}
  hardwareEnforced := {
    purposes := some (.ofList [2, 3])
    algorithm := some 3
    noAuthRequired := true
    rootOfTrust := some ⟨[0x01, 0x02], true, .verified, some [0x03]⟩ }

/-- The record of the signing key, its properties and purposes last first. -/
theorem decode_written_signingKey :
    ∃ bs, signingKey.Written bs ∧ decode bs = .ok signingKey := by
  let parts : List Octets :=
    [writeExplicit 704 (RootOfTrust.der ⟨[0x01, 0x02], true, .verified, some [0x03]⟩),
    writeExplicit 503 Der.null, writeExplicit 2 (writeInteger 3),
    writeExplicit 1 (writeSet [writeInteger 3, writeInteger 2])]
  have hstandard : signingKey.IsStandard := ⟨Option.some_ne_none _ |>.symm, rfl, rfl⟩
  have hsoftware : signingKey.softwareEnforced.Written (writeSequence []) :=
    ⟨[], [], .refl _, .nil, rfl⟩
  have hhardware : signingKey.hardwareEnforced.Written (writeSequence parts) := by
    refine ⟨signingKey.hardwareEnforced.properties.reverse, parts, List.reverse_perm _, ?_, rfl⟩
    exact .cons ⟨_, rfl, rfl⟩ (.cons ⟨_, rfl, rfl⟩ (.cons ⟨_, rfl, rfl⟩
      (.cons ⟨_, ⟨[3, 2], .swap .., rfl⟩, rfl⟩ .nil)))
  have hwritten : signingKey.Written _ := ⟨_, _, hsoftware, hhardware, rfl⟩
  exact ⟨_, hwritten, (decode_written signingKey hstandard).2.1 _ hwritten (by decide)⟩

end KeyDescription

end AttestedKey
