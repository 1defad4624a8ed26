import AttestedKey.Proofs.Conversation
import AttestedKey.Proofs.OfferedChains
import AttestedKey.Provisioning.Client

/-! Keys that a client fetches, against the keys that the server's answer offers. The answer is
read as an item, written anew and read again before it is taken for an offer, so what is taken is
`x.reread` where the answer is `x`. The two are offers of the same keys exactly where `ComesBack
x`: no chain that counts has a large integer in it that would be written in another way, none at
all stands in the way of reading again, and no curve is given as one. -/

namespace AttestedKey

open Cbor (Item)

namespace Cbor.Item

theorem exists_of_reread_array {xs : List Item} {y : Item} (h : (array xs).reread = some y) :
    ∃ ys, y = array ys ∧ List.Forall₂ (fun x y => x.reread = some y) xs ys := by
  rw [reread_array] at h
  obtain ⟨ys, hys, rfl⟩ := Option.map_eq_some_iff.1 h
  exact ⟨ys, rfl, mapM_eq_some_iff_forall₂.1 hys⟩

theorem reread_of_int? {x : Item} {n : Int} (h : x.int? = some n) : x.reread = some x := by
  refine reread_eq_self ?_
  rintro ⟨⟩ <;> cases h

end Cbor.Item

namespace EndpointKeys

open Provisioning

/-- The item offers the challenge, and lists the chains. -/
def Offers (x : Item) (listed : List (Int64 × Item)) (challenge : Octets) : Prop :=
  ∃ parts entries, x = .array parts ∧ parts[0]? = some (.array entries) ∧
    List.Forall₂ IsEntry entries listed ∧
    parts[1]? = some (.bytes challenge)

theorem ofItem_eq_ok_iff {x : Item} {k : EndpointKeys} :
    ofItem x = .ok k ↔
      ∃ listed, Offers x listed k.challenge ∧ k.chains = .ofList (listed.map kept) := by
  unfold ofItem Offers
  simp only [bind_eq_ok_iff, array_eq_ok_iff, octets_eq_ok_iff, nth_eq_ok_iff,
    mapM_entryOf_eq_ok_iff]
  constructor
  · rintro ⟨parts, rfl, _, hentries, entries, rfl, _, ⟨listed, hlisted, rfl⟩, _, hchallenge,
      challenge, rfl, h⟩
    cases h
    exact ⟨listed, ⟨parts, entries, rfl, hentries, hlisted, hchallenge⟩, rfl⟩
  · rintro ⟨listed, ⟨parts, entries, rfl, hentries, hlisted, hchallenge⟩, hchains⟩
    refine ⟨parts, rfl, _, hentries, entries, rfl, _, ⟨listed, hlisted, rfl⟩, _, hchallenge, _,
      rfl, ?_⟩
    rw [← hchains]
    rfl

theorem IsEntry.unique {x : Item} {e e' : Int64 × Item} (h : IsEntry x e) (h' : IsEntry x e') :
    e = e' := by
  obtain ⟨parts, curve, rfl, hcurve, hn, hchain⟩ := h
  obtain ⟨parts', curve', heq, hcurve', hn', hchain'⟩ := h'
  cases heq
  cases hcurve.symm.trans hcurve'
  refine Prod.ext (Int64.toInt_inj.1 (Option.some.inj (hn.symm.trans hn'))) ?_
  exact Option.some.inj (hchain.symm.trans hchain')

theorem Offers.unique {x : Item} {listed listed' : List (Int64 × Item)}
    {challenge challenge' : Octets} (h : Offers x listed challenge)
    (h' : Offers x listed' challenge') : listed = listed' := by
  obtain ⟨parts, entries, rfl, hentries, hlisted, -⟩ := h
  obtain ⟨parts', entries', heq, hentries', hlisted', -⟩ := h'
  cases heq
  cases hentries.symm.trans hentries'
  exact List.right_unique_forall₂' (fun _ _ _ he he' => he.unique he') hlisted hlisted'

/-- The second entry is for the same curve, and its chain is what is read when the first one's is
written. -/
def IsReread (e e' : Int64 × Item) : Prop := e'.1 = e.1 ∧ e.2.reread = some e'.2

theorem IsEntry.reread {x y : Item} {e : Int64 × Item} (h : IsEntry x e) (hy : x.reread = some y) :
    ∃ e', IsEntry y e' ∧ IsReread e e' := by
  obtain ⟨parts, curve, rfl, hcurve, hn, hchain⟩ := h
  obtain ⟨parts', rfl, hparts⟩ := Item.exists_of_reread_array hy
  obtain ⟨curve', hcurve', hreread⟩ := exists_getElem?_of_forall₂ hparts hcurve
  obtain ⟨chain', hchain', hreread'⟩ := exists_getElem?_of_forall₂ hparts hchain
  cases (Item.reread_of_int? hn).symm.trans hreread
  exact ⟨(e.1, chain'), ⟨parts', curve, rfl, hcurve', hn, hchain'⟩, rfl, hreread'⟩

theorem exists_isReread {entries entries' : List Item} {listed : List (Int64 × Item)}
    (hlisted : List.Forall₂ IsEntry entries listed)
    (hentries : List.Forall₂ (fun x y => x.reread = some y) entries entries') :
    ∃ listed', List.Forall₂ IsEntry entries' listed' ∧ List.Forall₂ IsReread listed listed' := by
  induction hlisted generalizing entries' with
  | nil =>
    cases hentries
    exact ⟨[], .nil, .nil⟩
  | cons hx _ ih =>
    cases hentries with
    | cons hy hentries =>
      obtain ⟨e', he', hreread⟩ := hx.reread hy
      obtain ⟨listed', hlisted', hrereads⟩ := ih hentries
      exact ⟨e' :: listed', .cons he' hlisted', .cons hreread hrereads⟩

/-- An offer that can be read again is an offer of the same challenge, with each chain read
again. -/
theorem Offers.reread {x y : Item} {listed : List (Int64 × Item)} {challenge : Octets}
    (h : Offers x listed challenge) (hy : x.reread = some y) :
    ∃ listed', Offers y listed' challenge ∧ List.Forall₂ IsReread listed listed' := by
  obtain ⟨parts, entries, rfl, hentries, hlisted, hchallenge⟩ := h
  obtain ⟨parts', rfl, hparts⟩ := Item.exists_of_reread_array hy
  obtain ⟨_, hentries', hreread⟩ := exists_getElem?_of_forall₂ hparts hentries
  obtain ⟨entries', rfl, hforall⟩ := Item.exists_of_reread_array hreread
  obtain ⟨_, hchallenge', hreread'⟩ := exists_getElem?_of_forall₂ hparts hchallenge
  cases (Item.reread_eq_self (by rintro ⟨⟩)).symm.trans hreread'
  obtain ⟨listed', hlisted', hrereads⟩ := exists_isReread hlisted hforall
  exact ⟨listed', ⟨parts', entries', rfl, hentries', hlisted', hchallenge'⟩, hrereads⟩

theorem lookup_of_isReread {listed listed' : List (Int64 × Item)}
    (h : List.Forall₂ IsReread listed listed') (curve : Int64) :
    listed'.lookup curve = (listed.lookup curve).bind Item.reread := by
  induction h with
  | nil => rfl
  | @cons e e' _ _ he _ ih =>
    rw [List.lookup_cons, List.lookup_cons, he.1, ih]
    cases curve == e.1
    · rfl
    · exact he.2.symm

/-- Of an offer read again the same is kept where no chain that counts is written in another way. -/
theorem ofList_kept_eq_iff {listed listed' : List (Int64 × Item)}
    (h : List.Forall₂ IsReread listed listed') :
    ChainMap.ofList (listed.map kept) = .ofList (listed'.map kept) ↔
      ∀ curve chain, listed.reverse.lookup curve = some chain →
        chain.reread.map Cbor.write = some (Cbor.write chain) := by
  have hlookup := lookup_of_isReread (List.forall₂_reverse_iff.2 h)
  constructor
  · intro heq curve chain hchain
    have hget := congrArg (·.get? curve) heq
    simp only [get?_ofList_kept, hlookup, hchain] at hget
    exact hget.symm
  · intro hall
    refine ChainMap.ext_get? fun curve => ?_
    rw [get?_ofList_kept, get?_ofList_kept, hlookup]
    cases hchain : listed.reverse.lookup curve with
    | none => rfl
    | some chain => exact (hall curve chain hchain).symm

/-- Written and read again, the item offers the same keys, or none as before. -/
structure ComesBack (x : Item) : Prop where
  offer : ∀ listed challenge, Offers x listed challenge → x.reread.isSome ∧
    ∀ curve chain, listed.reverse.lookup curve = some chain →
      chain.reread.map Cbor.write = some (Cbor.write chain)
  only : ∀ y listed challenge, x.reread = some y → Offers y listed challenge →
    ∃ listed, Offers x listed challenge

theorem ofItem_reread_iff {x : Item} :
    (∀ k, (∃ y, x.reread = some y ∧ ofItem y = .ok k) ↔ ofItem x = .ok k) ↔ ComesBack x := by
  constructor
  · intro h
    refine ⟨fun listed challenge hx => ?_, fun y listed challenge hy hoffers => ?_⟩
    · have hk : ofItem x = .ok ⟨.ofList (listed.map kept), challenge⟩ :=
        ofItem_eq_ok_iff.2 ⟨listed, hx, rfl⟩
      obtain ⟨y, hy, hk⟩ := (h _).2 hk
      obtain ⟨other, hother, hchains⟩ := ofItem_eq_ok_iff.1 hk
      obtain ⟨listed', hlisted', hrereads⟩ := hx.reread hy
      obtain rfl := hother.unique hlisted'
      exact ⟨by rw [hy]; rfl, (ofList_kept_eq_iff hrereads).1 hchains⟩
    · have hk : ofItem y = .ok ⟨.ofList (listed.map kept), challenge⟩ :=
        ofItem_eq_ok_iff.2 ⟨listed, hoffers, rfl⟩
      obtain ⟨other, hother, -⟩ := ofItem_eq_ok_iff.1 ((h _).1 ⟨y, hy, hk⟩)
      exact ⟨other, hother⟩
  · intro h k
    constructor
    · rintro ⟨y, hy, hk⟩
      obtain ⟨listed', hlisted', hchains⟩ := ofItem_eq_ok_iff.1 hk
      obtain ⟨listed, hlisted⟩ := h.only y listed' _ hy hlisted'
      obtain ⟨other, hother, hrereads⟩ := hlisted.reread hy
      obtain rfl := hother.unique hlisted'
      refine ofItem_eq_ok_iff.2 ⟨listed, hlisted, hchains.trans ?_⟩
      exact ((ofList_kept_eq_iff hrereads).2 (h.offer _ _ hlisted).2).symm
    · intro hk
      obtain ⟨listed, hlisted, hchains⟩ := ofItem_eq_ok_iff.1 hk
      obtain ⟨hsome, hlast⟩ := h.offer _ _ hlisted
      obtain ⟨y, hy⟩ := Option.isSome_iff_exists.1 hsome
      obtain ⟨listed', hlisted', hrereads⟩ := hlisted.reread hy
      exact ⟨y, hy, ofItem_eq_ok_iff.2 ⟨listed', hlisted',
        hchains.trans ((ofList_kept_eq_iff hrereads).2 hlast)⟩⟩

theorem comesBack_of_reread {x : Item} (h : x.reread = some x) : ComesBack x :=
  ofItem_reread_iff.1 fun k => by simp [h]

theorem decode_eq_ok_iff_ofItem {bs : Octets} {k : EndpointKeys} :
    decode bs = .ok k ↔ ∃ x, Cbor.read bs = some (x, []) ∧ ofItem x = .ok k := by
  unfold decode
  simp only [bind_eq_ok_iff, item_eq_ok_iff]

end EndpointKeys

namespace ProvisioningClient

open Provisioning

section

variable (c : ProvisioningClient) {p : Partner} {past : List Exchange} {body : Octets}
  (hanswer : p past (.server (c.request ":fetchEekChain" [] c.endpointKeysBody)) =
    .answered 200 body)
  (hlen : body.length ≤ maxAnswer)
include hanswer hlen

theorem converse_fetchEndpointKeys : (Session.converse p c.fetchEndpointKeys past).1 =
    item ":fetchEekChain" body >>= fun x => EndpointKeys.decode (Cbor.write x) := by
  have hreceived : c.received ":fetchEekChain" (.answered 200 body) =
    item ":fetchEekChain" body := by
    rw [c.received_whole, List.take_of_length_le hlen]
  have hpost : Session.converse p (c.post ":fetchEekChain" [] c.endpointKeysBody) past =
      (item ":fetchEekChain" body,
        past ++
        [⟨.server (c.request ":fetchEekChain" [] c.endpointKeysBody), .answered 200 body⟩]) := by
    rw [post, Session.converse_bind_ok (Session.converse_server ..), hanswer, hreceived]
    rfl
  rw [fetchEndpointKeys]
  cases hitem : item ":fetchEekChain" body with
  | error e =>
    rw [Session.converse_bind_error (hpost.trans (by rw [hitem]))]
    rfl
  | ok x =>
    rw [Session.converse_bind_ok (hpost.trans (by rw [hitem]))]
    rfl

/-- What is fetched is what the answer offers when it has been read, written and read again. -/
theorem fetchEndpointKeys_eq_ok_iff {k : EndpointKeys} :
    (Session.converse p c.fetchEndpointKeys past).1 = .ok k ↔
    ∃ x y, Cbor.read body = some (x, []) ∧ x.reread = some y ∧ EndpointKeys.ofItem y = .ok k := by
  have hlimit : body.length ≤ 0x10000000000000000 := hlen.trans (by decide)
  rw [c.converse_fetchEndpointKeys hanswer hlen]
  simp only [bind_eq_ok_iff, item_eq_ok_iff, EndpointKeys.decode_eq_ok_iff_ofItem]
  constructor
  · rintro ⟨x, hx, y, hy, hk⟩
    have hwrite := Cbor.read_write_of_read hx hlimit []
    rw [List.append_nil, hy] at hwrite
    obtain ⟨z, hz, h⟩ := Option.map_eq_some_iff.1 hwrite.symm
    cases h
    exact ⟨x, y, hx, hz, hk⟩
  · rintro ⟨x, y, hx, hy, hk⟩
    have hwrite := Cbor.read_write_of_read hx hlimit []
    rw [List.append_nil, hy] at hwrite
    exact ⟨x, hx, y, hwrite, hk⟩

/-- A client fetches the keys that the server's answer offers exactly where writing the answer anew
changes nothing of them. -/
theorem fetchEndpointKeys_decode_iff :
    (∀ k, (Session.converse p c.fetchEndpointKeys past).1 = .ok k ↔
      EndpointKeys.decode body = .ok k) ↔
      ∀ x, Cbor.read body = some (x, []) → EndpointKeys.ComesBack x := by
  simp only [c.fetchEndpointKeys_eq_ok_iff hanswer hlen, EndpointKeys.decode_eq_ok_iff_ofItem,
    ← EndpointKeys.ofItem_reread_iff]
  cases hread : Cbor.read body with
  | none => simp
  | some p =>
    obtain ⟨x, rest⟩ := p
    cases rest with
    | nil => simp
    | cons b rest => simp

end

end ProvisioningClient

/-! Offers of one chain for one curve: an empty list, and a large integer in the two octets of an
indefinite byte string and one octet of its own. -/

namespace SampleOffer

open Provisioning

def client : ProvisioningClient := ⟨"https://example.com", "acme/1", "1"⟩

def answering (body : Octets) : Partner := fun _ q =>
  match q with
  | .device _ => .error (.device "not supported")
  | .server _ => .answered 200 body

def body : Octets := [0x82, 0x81, 0x82, 0x02, 0x80, 0x41, 0x63]

def item : Item := .array [.array [.array [.unsigned 2, .array []]], .bytes [0x63]]

theorem reread_item : item.reread = some item := by
  simp [item, Item.reread_array, Item.reread]

theorem offers {chain : Item} :
    EndpointKeys.Offers (.array [.array [.array [.unsigned 2, chain]], .bytes [0x63]]) [(2, chain)]
      [0x63] :=
  ⟨_, _, rfl, rfl, .cons ⟨_, _, rfl, rfl, rfl, rfl⟩ .nil, rfl⟩

theorem fetchEndpointKeys_sample : ∃ k, EndpointKeys.decode body = .ok k ∧
    (Session.converse (answering body) client.fetchEndpointKeys []).1 = .ok k := by
  have hread : Cbor.read body = some (item, []) := rfl
  have hback : ∀ x, Cbor.read body = some (x, []) → EndpointKeys.ComesBack x := by
    intro x hx
    cases hread.symm.trans hx
    exact EndpointKeys.comesBack_of_reread reread_item
  have hdecode : EndpointKeys.decode body =
    .ok ⟨.ofList [EndpointKeys.kept (2, .array [])], [0x63]⟩ :=
    EndpointKeys.decode_eq_ok_iff_ofItem.2 ⟨_, hread,
      EndpointKeys.ofItem_eq_ok_iff.2 ⟨_, offers, rfl⟩⟩
  refine ⟨_, hdecode, ?_⟩
  exact ((client.fetchEndpointKeys_decode_iff (p := answering body) rfl (by decide)).2 hback _).2
    hdecode

def bignumBody : Octets := [0x82, 0x81, 0x82, 0x02, 0xC2, 0x5F, 0x41, 0x05, 0xFF, 0x41, 0x63]

def bignumItem : Item :=
  .array [.array [.array [.unsigned 2, .tagged 2 (.bytes [5])]], .bytes [0x63]]

def rereadItem : Item := .array [.array [.array [.unsigned 2, .unsigned 5]], .bytes [0x63]]

theorem reread_bignumItem : bignumItem.reread = some rereadItem := by
  simp [bignumItem, rereadItem, Item.reread_array, Item.reread]
  rfl

/-- The client takes another chain than the one that the answer offers. -/
theorem fetchEndpointKeys_bignum : ∃ fetched offered,
    (Session.converse (answering bignumBody) client.fetchEndpointKeys []).1 = .ok fetched ∧
      EndpointKeys.decode bignumBody = .ok offered ∧ fetched.chains.get? 2 = some [0x05] ∧
      offered.chains.get? 2 = some [0xC2, 0x41, 0x05] := by
  have hread : Cbor.read bignumBody = some (bignumItem, []) := rfl
  refine ⟨⟨.ofList [EndpointKeys.kept (2, .unsigned 5)], [0x63]⟩,
    ⟨.ofList [EndpointKeys.kept (2, .tagged 2 (.bytes [5]))], [0x63]⟩, ?_, ?_, ?_, ?_⟩
  · exact (client.fetchEndpointKeys_eq_ok_iff (p := answering bignumBody) rfl (by decide)).2
      ⟨_, _, hread, reread_bignumItem, EndpointKeys.ofItem_eq_ok_iff.2 ⟨_, offers, rfl⟩⟩
  · exact EndpointKeys.decode_eq_ok_iff_ofItem.2 ⟨_, hread,
      EndpointKeys.ofItem_eq_ok_iff.2 ⟨_, offers, rfl⟩⟩
  · simp [EndpointKeys.kept, Cbor.write]
    rfl
  · simp [EndpointKeys.kept, Cbor.write]
    rfl

end SampleOffer

end AttestedKey
