import AttestedKey.Proofs.DerEncoding
import AttestedKey.Proofs.Properties

/-! The two wire forms of an authorization list. The same entries, tag numbers with values, are
written as a SEQUENCE of explicitly tagged objects and as a map; both forms are read entry by
entry, and an entry reads as the same property from either, unless its tag number is one the object
reader cannot keep apart from a known one (`WireEntry.IsAliased`). -/

namespace AttestedKey

inductive WireValue
  | integer (n : Int)
  | integers (ns : List Int)
  | octets (bs : Octets)
  | rootOfTrust (bs : Octets)
  | presence
  deriving DecidableEq

def IsWireInt (n : Int) : Prop := -0x10000000000000000 ≤ n ∧ n < 0x10000000000000000

namespace WireValue

def Fits : WireValue → PropertyKind → Prop
  | integer _, k => k = .int ∨ k = .uint ∨ k = .date
  | integers _, k => k = .ints
  | octets _, k => k = .octets ∨ k = .text ∨ k = .applicationId
  | rootOfTrust _, k => k = .rootOfTrust
  | presence, k => k = .flag

def InRange : WireValue → Prop
  | integer n => IsWireInt n
  | integers ns => ∀ n ∈ ns, IsWireInt n
  | _ => True

def der : WireValue → Octets
  | integer n => Der.writeInteger n
  | integers ns => Der.writeSet (ns.map Der.writeInteger)
  | octets bs => Der.writeOctets bs
  | rootOfTrust bs => bs
  | presence => Der.null

def integerItem (n : Int) : Cbor.Item :=
  if 0 ≤ n then .unsigned (UInt64.ofNat n.toNat) else .negative (UInt64.ofNat (-1 - n).toNat)

def item : WireValue → Cbor.Item
  | integer n => integerItem n
  | integers ns => .array (ns.map integerItem)
  | octets bs => .bytes bs
  | rootOfTrust bs => .bytes bs
  | presence => .null

end WireValue

structure WireEntry where
  number : Nat
  value : WireValue
  deriving DecidableEq

namespace WireEntry

/-- A known tag has a value that it calls for; integers, also the key of the entry, can be
written. -/
structure IsValid (e : WireEntry) : Prop where
  fits : ∀ t, Tag.ofNumber? e.number = some t → e.value.Fits t.kind
  inRange : e.value.InRange
  key : IsWireInt (Tag.tokenBase - e.number)

def der (e : WireEntry) : Octets := Der.writeExplicit e.number e.value.der

def item (e : WireEntry) : Cbor.Item × Cbor.Item :=
  (WireValue.integerItem (Tag.tokenBase - e.number), e.value.item)

/-- The number is none of a tag, but what 32 bits keep of it is, and it has no more than five
digits. -/
def IsAliased (e : WireEntry) : Prop :=
  0x100000000 ≤ e.number ∧ e.number < 0x800000000 ∧ (Tag.ofNumber? (e.number % 0x100000000)).isSome

end WireEntry

structure WireList where
  entries : List WireEntry
  valid : ∀ e ∈ entries, e.IsValid
  small : (Der.writeSequence (entries.map WireEntry.der)).length < 0x10000000000000000

namespace WireList

def der (w : WireList) : Octets := Der.writeSequence (w.entries.map WireEntry.der)

def item (w : WireList) : Cbor.Item := .map (w.entries.map WireEntry.item)

end WireList

/-! ### Values -/

namespace WireValue

theorem int?_integerItem {n : Int} (h : IsWireInt n) : (integerItem n).int? = some n := by
  obtain ⟨hlo, hhi⟩ := h
  unfold integerItem
  split
  · simp only [Cbor.Item.int?, UInt64.toNat_ofNat']
    congr 1
    omega
  · simp only [Cbor.Item.int?, UInt64.toNat_ofNat']
    congr 1
    omega

theorem asNumber_integerItem {n : Int} (h : IsWireInt n) (what : String) :
    (integerItem n).asNumber what = .ok n := by
  rw [Cbor.Item.asNumber, int?_integerItem h]
  rfl

theorem asInt_integer {n : Int} (h : IsWireInt n) (what : String) :
    (Ber.Object.integer (Der.integerContent n)).asInt what = (integerItem n).asInt what := by
  rw [Ber.Object.asInt, Cbor.Item.asInt, Ber.asNumber_integer h, asNumber_integerItem h]

theorem asUInt_integer {n : Int} (h : IsWireInt n) (what : String) :
    (Ber.Object.integer (Der.integerContent n)).asUInt what = (integerItem n).asUInt what := by
  rw [Ber.Object.asUInt, Cbor.Item.asUInt, Ber.asNumber_integer h, asNumber_integerItem h]

theorem mapM_asInt {ns : List Int} (h : ∀ n ∈ ns, IsWireInt n) (what : String) :
    (ns.map fun n => Ber.Object.integer (Der.integerContent n)).mapM (·.asInt what) =
      (ns.map integerItem).mapM (·.asInt what) := by
  induction ns with
  | nil => rfl
  | cons n ns ih =>
    rw [List.map_cons, List.map_cons, List.mapM_cons, List.mapM_cons,
      asInt_integer (h n List.mem_cons_self), ih fun m hm => h m (List.mem_cons_of_mem n hm)]

def object? : WireValue → Option Ber.Object
  | integer n => some (.integer (Der.integerContent n))
  | integers ns => some (.set (ns.map fun n => .integer (Der.integerContent n)))
  | octets bs => some (.octetString bs)
  | rootOfTrust bs => (Ber.Object.ofOctets "root-of-trust" bs).toOption
  | presence => some (.other 5 [])

theorem encodes_integers (depth : Nat) (ns : List Int) :
    Ber.Encodes (depth + 2) (Der.writeSet (ns.map Der.writeInteger))
      (some (.set (ns.map fun n => .integer (Der.integerContent n)))) :=
  Ber.encodes_set_some (Ber.forall₂_encodes (Ber.encodes_integer depth) ns)

theorem toOption_ofOctets_der {v : WireValue} (h : v.der.length < 0x10000000000000000)
    (what : String) : (Ber.Object.ofOctets what v.der).toOption = v.object? := by
  cases v with
  | integer n => exact (Ber.encodes_integer 49 n h).readWhole what
  | integers ns => exact (encodes_integers 48 ns h).readWhole what
  | octets bs => exact (Ber.encodes_octets 49 bs h).readWhole what
  | rootOfTrust bs =>
    simp only [object?, Ber.Object.ofOctets, der, readWhole]
    cases Ber.read bs with
    | none => rfl
    | some p =>
      obtain ⟨x, rest⟩ := p
      cases rest <;> rfl
  | presence => exact (Ber.encodes_null 49 h).readWhole what

/-- A value that the kind calls for is read the same from its object and from its item. -/
theorem read_object {v : WireValue} {k : PropertyKind} (hfits : v.Fits k) (hrange : v.InRange)
    (what : String) :
    (v.object?.bind fun x => (k.read what x).toOption) = (k.read what v.item).toOption := by
  cases v with
  | integer n =>
    have hint := asInt_integer hrange what
    have huint := asUInt_integer hrange what
    rcases hfits with rfl | rfl | rfl
    · exact congrArg Except.toOption hint
    · exact congrArg Except.toOption huint
    · simp only [object?, Option.bind_some, PropertyKind.read, PropertyValue.date,
        PropertyValue.int, item, hint]
  | integers ns =>
    obtain rfl := hfits
    have hints := mapM_asInt hrange what
    exact congrArg (fun ms : Decoded (List Int64) => (ms >>=
      fun ms => pure (NumberSet.ofList ms)).toOption) hints
  | octets bs => rcases hfits with rfl | rfl | rfl <;> rfl
  | rootOfTrust bs =>
    obtain rfl := hfits
    exact (toOption_bind (Ber.Object.ofOctets "root-of-trust" bs) RootOfTrust.ofObject).symm
  | presence =>
    obtain rfl := hfits
    rfl

end WireValue

/-! ### Entries and lists -/

namespace WireEntry

theorem item_eq {e : WireEntry} (h : e.IsValid) :
    PropertyEntry.ofItem? e.item = (Tag.ofNumber? e.number).bind fun t =>
      PropertyEntry.read? t e.value.item := by
  have hbase : Tag.tokenBase - e.number ≤ Tag.tokenBase := by omega
  have hlevel : Tag.tokenBase - e.number ≠ AuthorizationList.securityLevelClaim := by
    change -80000 - (e.number : Int) ≠ -76002
    omega
  have hnumber : (Tag.tokenBase - (Tag.tokenBase - (e.number : Int))).toNat = e.number := by omega
  rw [PropertyEntry.ofItem?, item, WireValue.int?_integerItem h.key, Option.bind_some,
    if_neg hlevel, Tag.ofClaim?, if_pos hbase, hnumber]

def read? (e : WireEntry) : Option PropertyEntry :=
  (Ber.tagNumber? e.number).bind fun n => PropertyEntry.ofObject? (.tagged .context n e.value.der)

theorem ofObject?_explicit {v : WireValue} (h : v.der.length < 0x10000000000000000) (n : Nat) :
    PropertyEntry.ofObject? (.tagged .context n v.der) =
      (Tag.ofNumber? n).bind fun t => v.object?.bind (PropertyEntry.read? t) := by
  change (Tag.ofNumber? n).bind (fun t => (Ber.Object.ofOctets t.label v.der).toOption.bind _) = _
  simp only [WireValue.toOption_ofOctets_der h]

theorem read?_value {e : WireEntry} (h : e.IsValid) {t : Tag}
    (ht : Tag.ofNumber? e.number = some t) :
    e.value.object?.bind (PropertyEntry.read? t) = PropertyEntry.read? t e.value.item := by
  unfold PropertyEntry.read?
  rw [← WireValue.read_object (h.fits t ht) h.inRange, Option.map_bind]
  rfl

theorem ofNumber?_of_le {n : Nat} (h : 725 ≤ n) : Tag.ofNumber? n = none := by
  cases ht : Tag.ofNumber? n with
  | none => rfl
  | some t =>
    have hn := Tag.number_of_ofNumber? ht
    have hmax : t.number ≤ 724 := by cases t <;> decide
    omega

/-- The number of an aliased entry is no tag's. -/
theorem item_eq_none {e : WireEntry} (h : e.IsValid) (hn : 0x100000000 ≤ e.number) :
    PropertyEntry.ofItem? e.item = none := by
  rw [item_eq h, ofNumber?_of_le (by omega), Option.bind_none]

theorem read?_eq_item {e : WireEntry} (h : e.IsValid)
    (hlen : e.value.der.length < 0x10000000000000000) (hnot : ¬ e.IsAliased) :
    e.read? = PropertyEntry.ofItem? e.item := by
  unfold read? Ber.tagNumber?
  -- a number of 32 bits is kept as it is, and a larger one is no tag's, neither in full nor in
  -- what is kept
  by_cases hn : e.number < 0x100000000
  · rw [if_pos (by omega), Nat.mod_eq_of_lt hn, Option.bind_some, ofObject?_explicit hlen,
      item_eq h]
    cases ht : Tag.ofNumber? e.number with
    | none => rfl
    | some t => exact read?_value h ht
  · rw [item_eq_none h (by omega)]
    split
    · next hfive =>
      have hunknown : Tag.ofNumber? (e.number % 0x100000000) = none :=
        Option.not_isSome_iff_eq_none.1 fun hs => hnot ⟨by omega, hfive, hs⟩
      rw [Option.bind_some, ofObject?_explicit hlen, hunknown, Option.bind_none]
    · rfl

end WireEntry

namespace WireList

theorem length_der_lt (w : WireList) {e : WireEntry} (he : e ∈ w.entries) :
    e.value.der.length < 0x10000000000000000 :=
  Ber.length_explicit_lt (Ber.length_part_lt w.small (List.mem_map_of_mem he))

theorem toOption_decode (w : WireList) :
    (AuthorizationList.decode w.der).toOption =
      (w.entries.mapM WireEntry.read?).bind AuthorizationList.ofDistinct? := by
  have hparts : List.Forall₂ (Ber.Encodes 49) (w.entries.map WireEntry.der)
      (w.entries.map fun e => (Ber.tagNumber? e.number).map fun n =>
        .tagged .context n e.value.der) := by
    rw [List.forall₂_map_left_iff, List.forall₂_map_right_iff, List.forall₂_same]
    exact fun e _ => Ber.encodes_explicit 48 e.number e.value.der
  have hobject := (Ber.encodes_sequence hparts w.small).readWhole "authorization-list"
  rw [AuthorizationList.decode, toOption_bind, der]
  change (Option.bind (readWhole Ber.read _ _).toOption _) = _
  rw [Ber.read, Ber.maxDepth, hobject, Option.bind_map]
  change (Option.bind _ fun xs => (AuthorizationList.ofObject (.sequence xs)).toOption) = _
  simp only [AuthorizationList.toOption_ofObject]
  rw [← Option.bind_assoc, Entries.bind_mapM_mapM]
  simp only [Option.bind_map]
  rfl

theorem toOption_ofItem (w : WireList) :
    (AuthorizationList.ofItem w.item).toOption =
      (w.entries.mapM fun e => PropertyEntry.ofItem? e.item).bind
        AuthorizationList.ofDistinct? := by
  rw [item, AuthorizationList.toOption_ofItem, List.mapM_map]
  rfl

end WireList

/-- The two forms decode to the same list, or neither decodes, exactly if no entry is aliased or
the SEQUENCE form does not decode anyway. -/
theorem AuthorizationList.decode_eq_ofItem_iff (w : WireList) :
    (AuthorizationList.decode w.der).toOption = (AuthorizationList.ofItem w.item).toOption ↔
      ((∃ e ∈ w.entries, e.IsAliased) → (AuthorizationList.decode w.der).toOption = none) := by
  have hrefused : (∃ e ∈ w.entries, e.IsAliased) →
    (AuthorizationList.ofItem w.item).toOption = none := by
    rintro ⟨e, he, halias⟩
    have hnone : w.entries.mapM (fun e => PropertyEntry.ofItem? e.item) = none := by
      rw [Option.eq_none_iff_forall_ne_some]
      intro es hes
      have hsome := (Entries.mapM_eq_some_iff.1 hes).1 e he
      rw [WireEntry.item_eq_none (w.valid e he) halias.1] at hsome
      cases hsome
    rw [WireList.toOption_ofItem, hnone, Option.bind_none]
  constructor
  · intro hsame halias
    rw [hsame, hrefused halias]
  · intro hdecode
    by_cases halias : ∃ e ∈ w.entries, e.IsAliased
    · rw [hdecode halias, hrefused halias]
    · rw [WireList.toOption_decode, WireList.toOption_ofItem]
      congr 1
      refine Entries.mapM_congr fun e he => ?_
      exact WireEntry.read?_eq_item (w.valid e he) (w.length_der_lt he) fun h => halias ⟨e, he, h⟩

/-- One entry, with the number that 32 bits cannot tell from the one of the algorithm. -/
def aliasedAlgorithm : WireList where
  entries := [⟨0x100000002, .integer 1⟩]
  valid := by
    simp only [List.mem_singleton, forall_eq]
    exact ⟨fun t ht => (by cases ht), ⟨by decide, by decide⟩, ⟨by decide, by decide⟩⟩
  small := by decide

/-- The SEQUENCE form reads as an algorithm, the map form is refused. -/
theorem aliasedAlgorithm_decode :
    aliasedAlgorithm.der = [0x30, 0x0A, 0xBF, 0x90, 0x80, 0x80, 0x80, 0x02, 0x03, 0x02, 0x01,
      0x01] ∧
      AuthorizationList.decode aliasedAlgorithm.der = .ok { algorithm := some 1 } ∧
      AuthorizationList.ofItem aliasedAlgorithm.item =
        .error (.unknownTag "-4295047298 in authorization-list") ∧
      (AuthorizationList.decode aliasedAlgorithm.der).toOption ≠
        (AuthorizationList.ofItem aliasedAlgorithm.item).toOption := by
  have hder : AuthorizationList.decode aliasedAlgorithm.der = .ok { algorithm := some 1 } := rfl
  have hitem : AuthorizationList.ofItem aliasedAlgorithm.item =
      .error (.unknownTag "-4295047298 in authorization-list") := rfl
  refine ⟨by decide, hder, hitem, fun h => ?_⟩
  rw [hder, hitem] at h
  cases h

end AttestedKey
