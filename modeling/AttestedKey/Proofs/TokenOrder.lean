import AttestedKey.Proofs.TokenFormat

/-! The order of the entries of a token does not matter, nor that of its submodules and of their
lists. What is read of a map is read of its entries one by one, and then of what the keys find. So
it is the same for entries in another order, and for entries whose items differ in the order of
their own entries only (`Reordered.eq_of_entries`); this is used three times, for the lists, the
submodules and the token. -/

namespace AttestedKey

namespace Cbor

/-- The items differ in the order of map entries only, at any depth of maps in maps. -/
inductive Reordered : Item → Item → Prop
  | refl (x : Item) : Reordered x x
  | perm {es es' : List (Item × Item)} (h : es.Perm es') : Reordered (.map es) (.map es')
  | inner (before after : List (Item × Item)) (k : Item) {v v' : Item} (h : Reordered v v') :
      Reordered (.map (before ++ (k, v) :: after)) (.map (before ++ (k, v') :: after))
  | trans {x y z : Item} (h : Reordered x y) (h' : Reordered y z) : Reordered x z

structure Alike (x y : Item) : Prop where
  int : x.int? = y.int?
  bytes : x.bytes? = y.bytes?
  bool : x.bool? = y.bool?
  array : x.array? = y.array?

namespace Alike

variable {x y : Item} (h : Alike x y) (what : String)

include h

theorem asInt :
    x.asInt what = y.asInt what := by
      rw [Item.asInt, Item.asInt, Item.asNumber, Item.asNumber, h.int]

theorem asUInt : x.asUInt what = y.asUInt what := by
  rw [Item.asUInt, Item.asUInt, Item.asNumber, Item.asNumber, h.int]

theorem asOctets :
    x.asOctets what = y.asOctets what := by rw [Item.asOctets, Item.asOctets, h.bytes]

theorem asBool : x.asBool what = y.asBool what := by rw [Item.asBool, Item.asBool, h.bool]

theorem asArray : x.asArray what = y.asArray what := by rw [Item.asArray, Item.asArray, h.array]

end Alike

namespace Reordered

variable {x y : Item}

theorem alike (h : Reordered x y) : Alike x y := by
  induction h with
  | refl x => exact ⟨rfl, rfl, rfl, rfl⟩
  | perm h => exact ⟨rfl, rfl, rfl, rfl⟩
  | inner before after k h ih => exact ⟨rfl, rfl, rfl, rfl⟩
  | trans h h' ih ih' =>
    exact ⟨ih.int.trans ih'.int, ih.bytes.trans ih'.bytes, ih.bool.trans ih'.bool,
      ih.array.trans ih'.array⟩

theorem eq_of_entries {α γ : Type} (whole : Item → Option γ) {read : Item × Item → Option α}
    {make : List α → Option γ} (hmap : ∀ es, whole (.map es) = (es.mapM read).bind make)
    (hmake : ∀ as as', as.Perm as' → make as = make as')
    (hread : ∀ k v v', Reordered v v' → read (k, v) = read (k, v')) (h : Reordered x y) :
    whole x = whole y := by
  -- along the reordering; `hread` stands for the same fact about the items inside
  induction h with
  | refl x => rfl
  | perm h => rw [hmap, hmap, Entries.bind_mapM_eq_of_perm hmake h]
  | inner before after k h ih =>
    rw [hmap, hmap, List.mapM_append, List.mapM_append, List.mapM_cons, List.mapM_cons,
      hread k _ _ h]
  | trans h h' ih ih' => exact ih.trans ih'

end Reordered

end Cbor

open Cbor (Item Reordered Alike)

theorem PropertyKind.read_eq_of_alike {v v' : Item} (h : Alike v v') (what : String)
    (k : PropertyKind) : k.read what v = k.read what v' := by
  cases k
  case flag => rfl
  all_goals
    simp only [read, PropertyValue.int, PropertyValue.uint, PropertyValue.ints, PropertyValue.date,
      PropertyValue.octets, PropertyValue.text, PropertyValue.rootOfTrust,
      PropertyValue.applicationId, h.asInt, h.asUInt, h.asOctets, h.asArray]
    rfl

theorem AuthorizationList.ofItem_eq_of_reordered {x y : Item} (h : Reordered x y) :
    (ofItem x).toOption = (ofItem y).toOption := by
  refine h.eq_of_entries (fun x => (ofItem x).toOption) toOption_ofItem
    (fun _ _ => ofDistinct?_eq_of_perm) ?_
  intro k v v' hv
  unfold PropertyEntry.ofItem?
  simp only [PropertyEntry.readLevel, hv.alike.asInt, PropertyEntry.read?,
    PropertyKind.read_eq_of_alike hv.alike]

namespace EntityToken

theorem Submodules.foldlM_add_eq_of_reordered {x y : Item} (h : Reordered x y) (what : String) :
    (x.asMap what >>= List.foldlM add {}).toOption =
    (y.asMap what >>= List.foldlM add {}).toOption := by
  refine h.eq_of_entries
    (fun x => (x.asMap what >>= List.foldlM add {}).toOption) toOption_foldlM ?_ ?_
  · exact fun _ _ => Entries.ite_nodupKeys_eq_of_perm fun _ _ hl => by simp only [ofEntries, hl]
  · intro k v v' hv
    simp only [Submodule.ofItem?, AuthorizationList.ofItem_eq_of_reordered hv]

theorem Claim.read_eq_of_reordered {v v' : Item} (h : Reordered v v') (c : Claim) :
    (c.read v).toOption = (c.read v').toOption := by
  cases c
  case submodules => exact Submodules.foldlM_add_eq_of_reordered h _
  all_goals simp only [read, h.alike.asInt, h.alike.asOctets, h.alike.asBool, h.alike.asArray]

def ofItem (x : Item) : Decoded EntityToken := do
  ofClaims (← (← x.asMap "eat").foldlM Claims.add {})

theorem toOption_ofItem (es : List (Item × Item)) :
    (ofItem (.map es)).toOption = (es.mapM Claim.ofItem?).bind fun cs =>
      (if cs.NodupKeys then some (Claims.ofEntries cs) else none).bind fun cs =>
        (ofClaims cs).toOption := by
  change (es.foldlM Claims.add {} >>= ofClaims).toOption = _
  rw [toOption_bind, Claims.toOption_foldlM, Option.bind_assoc]

theorem ofItem_eq_of_reordered {x y : Item} (h : Reordered x y) :
    (ofItem x).toOption = (ofItem y).toOption := by
  refine h.eq_of_entries (fun x => (ofItem x).toOption) toOption_ofItem
    (fun cs cs' hcs => ?_) fun k v v' hv => ?_
  · rw [Entries.ite_nodupKeys_eq_of_perm (fun _ _ hl => by simp only [Claims.ofEntries, hl]) hcs]
  · simp only [Claim.ofItem?, Claim.read_eq_of_reordered hv]

theorem decode_eq_ofItem {bs : Octets} {x : Item} (h : Cbor.read bs = some (x, [])) :
    decode bs = ofItem x := by
  rw [decode, Item.ofOctets, readWhole_eq_ok_iff.2 h]
  rfl

/-- What is decoded from the octets: a token if they are one map whose entries make a token, and
then one that says what the entries say, whatever the order of the entries of the map, of its
submodules and of their lists. -/
structure IsDecoding (bs : Octets) : Prop where
  accepts : (∃ t, decode bs = .ok t) ↔ ∃ es, Cbor.read bs = some (.map es, []) ∧ IsToken es
  reports : ∀ t es, decode bs = .ok t → Cbor.read bs = some (.map es, []) → Reports es t
  order : ∀ bs' x y, Cbor.read bs = some (x, []) → Cbor.read bs' = some (y, []) → Reordered x y →
    ∀ t, decode bs' = .ok t ↔ decode bs = .ok t

theorem decode_isDecoding (bs : Octets) : IsDecoding bs := by
  constructor
  case accepts =>
    constructor
    · rintro ⟨t, h⟩
      obtain ⟨es, cs, hes, hcs, ht⟩ := decode_eq_ok_iff.1 h
      obtain ⟨hclaims, f, rfl, hf⟩ := Claims.foldlM_add_eq_ok_iff.1 hcs
      exact ⟨es, hes, isToken_of_ofClaims hclaims hf ht⟩
    · rintro ⟨es, hes, h⟩
      obtain ⟨more, hread, hn⟩ := Claims.areClaims_iff.1 h.toAreClaims
      have hf : ∀ c x, more.dlookup c = some x ↔ Holds es c x :=
        fun c x => Claims.dlookup_eq_some_iff hread hn
      obtain ⟨t, ht⟩ := (exists_ofClaims_iff h.toAreClaims hf).2 h
      exact ⟨t, decode_eq_ok_iff.2 ⟨es, _, hes,
        Claims.foldlM_add_eq_ok_iff.2 ⟨h.toAreClaims, _, rfl, hf⟩, ht⟩⟩
  case reports =>
    intro t es h hes
    obtain ⟨es', cs, hes', hcs, ht⟩ := decode_eq_ok_iff.1 h
    cases hes.symm.trans hes'
    obtain ⟨hclaims, f, rfl, hf⟩ := Claims.foldlM_add_eq_ok_iff.1 hcs
    exact reports_of_ofClaims hclaims hf ht
  case order =>
    intro bs' x y hx hy hxy t
    rw [decode_eq_ofItem hx, decode_eq_ofItem hy, ← toOption_eq_some_iff, ← toOption_eq_some_iff,
      ofItem_eq_of_reordered hxy]

/-- Flags that are consistent, without an official build: the device is self-signed. -/
example : decode [0xA5,
    0x3A, 0x00, 0x01, 0x28, 0xE2, 0x85, 0xF5, 0xF5, 0xF4, 0xF4, 0xF4,
    0x3A, 0x00, 0x01, 0x3E, 0x5B, 0x41, 0x02,
    0x3A, 0x00, 0x01, 0x28, 0xE1, 0x03,
    0x3A, 0x00, 0x01, 0x3E, 0x5C, 0xF5,
    0x3A, 0x00, 0x01, 0x24, 0xFF, 0x41, 0x01] = .ok {
      attestationVersion := none
      keyMintVersion := none
      keyMintSecurityLevel := .trustedEnvironment
      challenge := [0x01]
      uniqueId := none
      softwareEnforced := {}
      hardwareEnforced := {}
      bootState := some [true, true, false, false, false]
      officialBuild := false
      rootOfTrust := some ⟨[0x02], true, .selfSigned, none⟩ } := by rfl

end EntityToken

end AttestedKey
