import AttestedKey.Proofs.ItemFront
import AttestedKey.Proofs.ShapedItems
import AttestedKey.Proofs.Values
import AttestedKey.Provisioning.EndpointKeys
import Mathlib.Data.List.Nodup

/-! The chains that a server offers, on the wire. A chain is kept as the octets of its item but
travels as the item itself, three arrays deep; as an item that has been read for itself can be read
there too, an offer comes back from what is written for it. And what an offer is read as is what it
lists: for each curve the chain of the last entry. -/

namespace AttestedKey

namespace ChainMap

/-- A map holds what is found in it. -/
theorem get?_eq_some_iff {m : ChainMap} {curve : Int64} {chain : Octets} :
    m.get? curve = some chain ↔ (curve, chain) ∈ m.toList := by
  unfold get?
  rw [Option.map_eq_some_iff]
  constructor
  · rintro ⟨⟨c, bs⟩, hfind, rfl⟩
    have hc := List.find?_some hfind
    simp only [beq_iff_eq] at hc
    rw [← hc]
    exact List.mem_of_find?_eq_some hfind
  · intro hmem
    cases hfind : m.toList.find? fun e => e.1 == curve with
    | none => exact absurd (List.find?_eq_none.1 hfind _ hmem) (by simp)
    | some e =>
      have hc := List.find?_some hfind
      simp only [beq_iff_eq] at hc
      have hkeys : (m.toList.map (·.1)).Nodup := by
        rw [List.Nodup, List.pairwise_map]
        exact m.increasing.imp fun hlt heq => Int64.ne_of_lt hlt heq
      have he := List.inj_on_of_nodup_map hkeys (List.mem_of_find?_eq_some hfind) hmem hc
      exact ⟨e, rfl, by rw [he]⟩

/-- Maps in which the same is found are the same. -/
theorem ext_get? {m m' : ChainMap} (h : ∀ curve, m.get? curve = m'.get? curve) : m = m' := by
  have hnodup : ∀ m : ChainMap, m.toList.Nodup := fun m =>
    List.Pairwise.imp (fun hlt heq => Int64.ne_of_lt hlt (congrArg Prod.fst heq)) m.increasing
  have hperm : m.toList.Perm m'.toList := by
    refine (List.perm_ext_iff_of_nodup (hnodup m) (hnodup m')).2 fun e => ?_
    rw [← get?_eq_some_iff, ← get?_eq_some_iff, h]
  have heq : m.toList = m'.toList :=
    hperm.eq_of_pairwise
      (fun a b _ _ hab hba => absurd hab (Int64.lt_asymm hba)) m.increasing m'.increasing
  cases m
  cases m'
  cases heq
  rfl

theorem find?_cons (e : Int64 × Octets) (es : List (Int64 × Octets)) (curve : Int64) :
    (e :: es).find? (fun e => e.1 == curve) = if curve = e.1 then some e else es.find? fun e =>
      e.1 == curve := by
  rw [List.find?_cons]
  by_cases h : curve = e.1
  · rw [if_pos h, h, beq_self_eq_true]
  · rw [if_neg h, beq_eq_false_iff_ne.2 (Ne.symm h)]

theorem find?_insertSorted (curve : Int64) (chain : Octets) (es : List (Int64 × Octets))
    (other : Int64) :
    (insertSorted curve chain es).find? (fun e => e.1 == other) =
      if other = curve then some (curve, chain) else es.find? fun e => e.1 == other := by
  induction es with
  | nil => rw [insertSorted, find?_cons]
  | cons e es ih =>
    unfold insertSorted
    split
    · rw [find?_cons]
    · split
      · next heq =>
        rw [find?_cons, find?_cons, ← heq]
        split <;> rfl
      · next hne =>
        rw [find?_cons, find?_cons, ih]
        by_cases h : other = curve
        · rw [if_neg (h ▸ hne), if_pos h, if_pos h]
        · rw [if_neg h, if_neg h]

theorem get?_insert (m : ChainMap) (curve : Int64) (chain : Octets) (other : Int64) :
    (m.insert curve chain).get? other = if other = curve then some chain else m.get? other := by
  unfold get? insert
  rw [find?_insertSorted]
  split <;> rfl

/-- Of entries for the same curve the last is found. -/
theorem get?_ofList (es : List (Int64 × Octets)) (curve : Int64) :
    (ofList es).get? curve = es.reverse.lookup curve := by
  unfold ofList
  rw [← List.foldr_reverse]
  generalize es.reverse = es
  induction es with
  | nil => rfl
  | cons e es ih =>
    rw [List.foldr_cons, get?_insert, ih, List.lookup_cons]
    by_cases h : curve = e.1
    · rw [if_pos h, beq_iff_eq.2 h]
    · rw [if_neg h, beq_eq_false_iff_ne.2 h]

/-- A map comes together from its own entries. -/
theorem ofList_toList (m : ChainMap) : ofList m.toList = m := by
  refine ext_get? fun curve => ?_
  rw [get?_ofList]
  have hsound : ∀ chain, m.toList.reverse.lookup curve = some chain →
    m.get? curve = some chain := by
    intro chain h
    obtain ⟨before, after, hsplit, -⟩ := List.lookup_eq_some_iff.1 h
    rw [get?_eq_some_iff, ← List.mem_reverse, hsplit]
    exact List.mem_append_right before List.mem_cons_self
  cases hfind : m.toList.reverse.lookup curve with
  | some chain => exact (hsound chain hfind).symm
  | none =>
    refine (Option.eq_none_iff_forall_ne_some.2 fun chain h => ?_).symm
    have hmem := List.mem_reverse.2 (get?_eq_some_iff.1 h)
    simpa using List.lookup_eq_none_iff.1 hfind _ hmem

end ChainMap

theorem Cbor.Item.int?_ofInt64 (n : Int64) : (Cbor.Item.ofInt64 n).int? = some n.toInt := by
  have hlo := n.le_toInt
  have hhi := n.toInt_lt
  unfold ofInt64
  split
  · rw [int?, UInt64.toNat_ofNat']
    congr 1
    omega
  · rw [int?, UInt64.toNat_ofNat']
    congr 1
    omega

namespace EndpointKeys

open Cbor (Item)
open Provisioning

/-- One entry of an offer: an array with the curve first and its chain second. -/
def IsEntry (x : Item) (e : Int64 × Item) : Prop :=
  ∃ parts curve, x = .array parts ∧ parts[0]? = some curve ∧ curve.int? = some e.1.toInt ∧
    parts[1]? = some e.2

def kept (e : Int64 × Item) : Int64 × Octets := (e.1, Cbor.write e.2)

/-- The octets are an item that offers the keys, for the curves and with the chains listed. -/
structure IsOffer (bs : Octets) (k : EndpointKeys) (listed : List (Int64 × Item)) : Prop where
  response : ∃ parts entries, Cbor.read bs = some (.array parts, []) ∧
    parts[0]? = some (.array entries) ∧
    List.Forall₂ IsEntry entries listed ∧ parts[1]? = some (.bytes k.challenge)
  curves : ∀ curve, (k.chains.get? curve).isSome ↔ ∃ chain, (curve, chain) ∈ listed
  /-- Of entries for the same curve the last counts. -/
  chains : ∀ curve, k.chains.get? curve = (listed.reverse.lookup curve).map Cbor.write

theorem lookup_map_kept (listed : List (Int64 × Item)) (curve : Int64) :
    (listed.map kept).lookup curve = (listed.lookup curve).map Cbor.write := by
  induction listed with
  | nil => rfl
  | cons e listed ih =>
    rw [List.map_cons, List.lookup_cons, List.lookup_cons, ih, kept]
    cases curve == e.1 <;> rfl

theorem get?_ofList_kept (listed : List (Int64 × Item)) (curve : Int64) :
    (ChainMap.ofList (listed.map kept)).get? curve =
    (listed.reverse.lookup curve).map Cbor.write := by
  rw [ChainMap.get?_ofList, ← List.map_reverse, lookup_map_kept]

/-- Which curves have a chain follows from what the chains are. -/
theorem IsOffer.of_chains {bs : Octets} {k : EndpointKeys} {listed : List (Int64 × Item)}
    (hresponse : ∃ parts entries, Cbor.read bs = some (.array parts, []) ∧
      parts[0]? = some (.array entries) ∧
      List.Forall₂ IsEntry entries listed ∧ parts[1]? = some (.bytes k.challenge))
    (hchains : ∀ curve, k.chains.get? curve = (listed.reverse.lookup curve).map Cbor.write) :
      IsOffer bs k listed := by
  refine ⟨hresponse, fun curve => ?_, hchains⟩
  rw [hchains, Option.isSome_map, List.lookup_isSome_iff]
  simp

theorem entryOf_eq_ok_iff {x : Item} {e : Int64 × Octets} :
    entryOf x = .ok e ↔ ∃ l, IsEntry x l ∧ kept l = e := by
  unfold entryOf IsEntry kept
  simp only [bind_eq_ok_iff, array_eq_ok_iff, nth_eq_ok_iff, number_eq_ok_iff]
  constructor
  · rintro ⟨parts, rfl, curve, hcurve, n, hn, chain, hchain, h⟩
    cases h
    exact ⟨(n, chain), ⟨parts, curve, rfl, hcurve, hn, hchain⟩, rfl⟩
  · rintro ⟨l, ⟨parts, curve, rfl, hcurve, hn, hchain⟩, rfl⟩
    exact ⟨parts, rfl, curve, hcurve, l.1, hn, l.2, hchain, rfl⟩

theorem mapM_entryOf_eq_ok_iff {xs : List Item} {es : List (Int64 × Octets)} :
    xs.mapM entryOf = .ok es ↔ ∃ listed, List.Forall₂ IsEntry xs listed ∧ listed.map kept = es := by
  simp only [mapM_eq_ok_iff, entryOf_eq_ok_iff]
  constructor
  · intro h
    induction h with
    | nil => exact ⟨[], .nil, rfl⟩
    | cons hx _ ih =>
      obtain ⟨l, hl, rfl⟩ := hx
      obtain ⟨listed, hlisted, rfl⟩ := ih
      exact ⟨l :: listed, .cons hl hlisted, rfl⟩
  · rintro ⟨listed, h, rfl⟩
    exact List.forall₂_map_right_iff.2 (h.imp fun _ l hl => ⟨l, hl, rfl⟩)

/-- What is accepted, and what it is taken for. -/
theorem decode_eq_ok_iff {bs : Octets} {k : EndpointKeys} :
    decode bs = .ok k ↔ ∃ listed, IsOffer bs k listed := by
  unfold decode ofItem
  simp only [bind_eq_ok_iff, item_eq_ok_iff, array_eq_ok_iff, octets_eq_ok_iff, nth_eq_ok_iff,
    mapM_entryOf_eq_ok_iff]
  constructor
  · rintro ⟨_, hread, parts, rfl, _, hentries, entries, rfl, _, ⟨listed, hlisted, rfl⟩, _,
      hchallenge, challenge, rfl, h⟩
    cases h
    exact ⟨listed,
      .of_chains ⟨parts, entries, hread, hentries, hlisted, hchallenge⟩ (get?_ofList_kept listed)⟩
  · rintro ⟨listed, ⟨parts, entries, hread, hentries, hlisted, hchallenge⟩, -, hchains⟩
    refine ⟨_, hread, parts, rfl, _, hentries, entries, rfl, _, ⟨listed, hlisted, rfl⟩, _,
      hchallenge, _, rfl, ?_⟩
    have hmap : ChainMap.ofList (listed.map kept) = k.chains :=
      ChainMap.ext_get? fun curve => by rw [get?_ofList_kept, hchains]
    rw [hmap]
    rfl

/-- How deep the item of a chain may nest: as deep as any item, less the arrays that it travels
in. -/
def chainDepth : Nat := Cbor.maxDepth - 3

/-- Keys that can be offered: the chains are what is written for items that do not nest too deep,
and a buffer can count the chains and hold the challenge. -/
structure IsPortable (k : EndpointKeys) : Prop where
  written : ∀ e ∈ k.chains.toList, ∃ x, Cbor.read e.2 = some (x, []) ∧ Cbor.write x = e.2
  shallow : ∀ e ∈ k.chains.toList, (Cbor.item chainDepth e.2).isSome
  count : k.chains.toList.length < 0x10000000000000000
  challenge : k.challenge.length < 0x10000000000000000

def entryFor (l : Int64 × Item) : Item := .array [Item.ofInt64 l.1, l.2]

def responseFor (listed : List (Int64 × Item)) (challenge : Octets) : Item :=
  .array [.array (listed.map entryFor), .bytes challenge]

theorem isEntry_entryFor (l : Int64 × Item) : IsEntry (entryFor l) l :=
  ⟨_, Item.ofInt64 l.1, rfl, rfl, Item.int?_ofInt64 l.1, rfl⟩

def IsShallow (x : Item) : Prop := Cbor.item chainDepth (Cbor.write x) = some (x, [])

theorem IsShallow.item {x : Item} (h : IsShallow x) {depth : Nat} (hle : chainDepth ≤ depth)
    (rest : Octets) : Cbor.item depth (Cbor.write x ++ rest) = some (x, rest) := by
  simpa using Cbor.item_extends hle h rest

theorem IsPortable.isShallow {k : EndpointKeys} (h : k.IsPortable) {e : Int64 × Octets}
    (he : e ∈ k.chains.toList) : ∃ l, IsShallow l.2 ∧ kept l = e := by
  obtain ⟨x, hread, hwrite⟩ := h.written e he
  obtain ⟨⟨y, rest⟩, hy⟩ := Option.isSome_iff_exists.1 (h.shallow e he)
  have hread' : Cbor.item Cbor.maxDepth e.2 = some (y, rest) := by
    simpa using Cbor.item_extends (by decide : chainDepth ≤ Cbor.maxDepth) hy []
  cases hread.symm.trans hread'
  refine ⟨(e.1, x), ?_, by rw [kept, hwrite]⟩
  rw [IsShallow, hwrite, hy]

section

variable {listed : List (Int64 × Item)} (hlisted : ∀ l ∈ listed, IsShallow l.2)
include hlisted

theorem mapM_entryItem : (listed.map kept).mapM entryItem = .ok (listed.map entryFor) := by
  rw [mapM_eq_ok_iff, List.forall₂_map_left_iff, List.forall₂_map_right_iff, List.forall₂_same]
  intro l hl
  have hread : item "EEK chain" (Cbor.write l.2) = .ok l.2 := by
    rw [item_eq_ok_iff, Cbor.read]
    simpa using (hlisted l hl).item (by decide : chainDepth ≤ Cbor.maxDepth) []
  unfold entryItem kept
  rw [hread]
  rfl

theorem item_entryFor {l : Int64 × Item} (hl : l ∈ listed) (rest : Octets) :
    Cbor.item (chainDepth + 1) (Cbor.write (entryFor l) ++ rest) = some (entryFor l, rest) := by
  refine Cbor.itemWith_array (by simp) (fun x hx rest => ?_) rest
  rcases List.mem_pair.1 hx with rfl | rfl
  · unfold Item.ofInt64
    split
    · exact Cbor.item_of_itemWith (fun inner => Cbor.itemWith_unsigned inner _ rest) _
    · exact Cbor.item_of_itemWith (fun inner => Cbor.itemWith_negative inner _ rest) _
  · exact (hlisted l hl).item (Nat.le_refl _) rest

theorem read_responseFor (hcount : listed.length < 0x10000000000000000) {challenge : Octets}
    (hchallenge : challenge.length < 0x10000000000000000) :
    Cbor.read (Cbor.write (responseFor listed challenge)) =
      some (responseFor listed challenge, []) := by
  have hentries : ∀ rest,
    Cbor.item (chainDepth + 2) (Cbor.write (.array (listed.map entryFor)) ++ rest) =
      some (.array (listed.map entryFor), rest) := by
    intro rest
    refine Cbor.itemWith_array (by rwa [List.length_map]) (fun x hx => ?_) rest
    obtain ⟨l, hl, rfl⟩ := List.mem_map.1 hx
    exact item_entryFor hlisted hl
  rw [← List.append_nil (Cbor.write _)]
  change Cbor.itemWith (some (Cbor.item (chainDepth + 2))) _ = _
  refine Cbor.itemWith_array (by simp) (fun x hx rest => ?_) []
  rcases List.mem_pair.1 hx with rfl | rfl
  · exact hentries rest
  · exact Cbor.item_of_itemWith (fun inner => Cbor.itemWith_bytes inner hchallenge rest) _

end

/-- What is written for keys offers them, with all their chains listed once. -/
theorem IsPortable.exists_isOffer {k : EndpointKeys} (h : k.IsPortable) :
    ∃ bs listed, k.encode = .ok bs ∧ IsOffer bs k listed := by
  obtain ⟨listed, hlisted, hkept⟩ := exists_map_eq fun e => h.isShallow (e := e)
  have hcount : listed.length < 0x10000000000000000 := by
    rw [← List.length_map (f := kept), hkept]
    exact h.count
  have hencode : k.encode = .ok (Cbor.write (responseFor listed k.challenge)) := by
    unfold encode
    rw [← hkept, mapM_entryItem hlisted]
    rfl
  have hentries : List.Forall₂ IsEntry (listed.map entryFor) listed := by
    rw [List.forall₂_map_left_iff, List.forall₂_same]
    exact fun l _ => isEntry_entryFor l
  refine ⟨_, listed, hencode, .of_chains
    ⟨_, _, read_responseFor hlisted hcount h.challenge, rfl, hentries, rfl⟩ fun curve => ?_⟩
  rw [← get?_ofList_kept, hkept, ChainMap.ofList_toList]

/-- Keys that can be offered come back from what is written for them, and whatever is accepted is
an offer of the keys that it is taken for. -/
theorem decode_encode :
    (∀ k : EndpointKeys, k.IsPortable → ∃ bs, k.encode = .ok bs ∧ decode bs = .ok k) ∧
      ∀ bs k, decode bs = .ok k ↔ ∃ listed, IsOffer bs k listed := by
  refine ⟨fun k h => ?_, fun bs k => decode_eq_ok_iff⟩
  obtain ⟨bs, listed, hencode, hoffer⟩ := h.exists_isOffer
  exact ⟨bs, hencode, decode_eq_ok_iff.2 ⟨listed, hoffer⟩⟩

def samplePair : EndpointKeys where
  chains := .ofList [(curve25519, [0x80]), (-7, [0x81, 0x41, 0x01])]
  challenge := [0xCA, 0xFE]

theorem samplePair_isPortable : samplePair.IsPortable where
  written := by
    intro e he
    rcases List.mem_pair.1 (show e ∈ [(-7, [0x81, 0x41, 0x01]), (curve25519, [0x80])] from he)
      with rfl | rfl
    · exact ⟨.array [.bytes [0x01]], rfl, by rw [Cbor.write_array]; simp [Cbor.write]; rfl⟩
    · exact ⟨.array [], rfl, by rw [Cbor.write_array]; rfl⟩
  shallow := by decide
  count := by decide
  challenge := by decide

theorem decode_encode_samplePair :
    samplePair.IsPortable ∧ ∃ bs, samplePair.encode = .ok bs ∧ decode bs = .ok samplePair :=
  ⟨samplePair_isPortable, decode_encode.1 samplePair samplePair_isPortable⟩

end EndpointKeys

end AttestedKey
