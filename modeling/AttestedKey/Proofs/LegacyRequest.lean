import AttestedKey.Proofs.Conversation
import AttestedKey.Proofs.ItemFront
import AttestedKey.Proofs.ShapedItems
import AttestedKey.Provisioning.Client

/-! Certificate requests from devices before version 3. The device is given the chain for its
curve, and the challenge, and what is sent is put together from four things that it made. Each is
read by itself and written anew inside the request; where it is in the form in which items are
written (`IsOwnForm`) the request has it as it was, since what reads as an item by itself reads as
it among others (`IsOwnForm.readsBack`). -/

namespace AttestedKey

open Cbor (Item)

namespace Provisioning

def IsItem (bs : Octets) : Prop := ∃ x, Cbor.read bs = some (x, [])

/-- The octets are what is written for the item, which nests at most `depth` deep. -/
structure IsOwnForm (depth : Nat) (bs : Octets) (x : Item) : Prop where
  read : Cbor.item depth bs = some (x, [])
  written : Cbor.write x = bs

/-- Where items may nest `depth` deep, what is written for this one reads as it, whatever
follows. -/
def ReadsBack (depth : Nat) (x : Item) : Prop :=
  ∀ rest, Cbor.item depth (Cbor.write x ++ rest) = some (x, rest)

theorem IsOwnForm.readsBack {depth : Nat} {bs : Octets} {x : Item} (h : IsOwnForm depth bs x) :
    ReadsBack depth x := by
  intro rest
  rw [h.written]
  exact (Cbor.isLocal_item depth).append h.read rest

theorem IsOwnForm.read_eq {depth : Nat} {bs : Octets} {x : Item} (h : IsOwnForm depth bs x)
    (hdepth : depth ≤ Cbor.maxDepth) : Cbor.read bs = some (x, []) := by
  simpa [Cbor.read] using Cbor.item_extends hdepth h.read []

theorem readsBack_bytes {b : Octets} (hb : b.length < 0x10000000000000000) (depth : Nat) :
    ReadsBack depth (.bytes b) :=
  fun rest => Cbor.item_of_itemWith (fun inner => Cbor.itemWith_bytes inner hb rest) depth

theorem readsBack_text {s : String} (hs : (Utf8.encode s).length < 0x10000000000000000)
    (depth : Nat) : ReadsBack depth (.text s) :=
  fun rest => Cbor.item_of_itemWith (fun inner => Cbor.itemWith_text inner hs rest) depth

theorem readsBack_array {depth : Nat} {xs : List Item} (hlen : xs.length < 0x10000000000000000)
    (h : ∀ x ∈ xs, ReadsBack depth x) : ReadsBack (depth + 1) (.array xs) :=
  fun rest => Cbor.itemWith_array hlen h rest

theorem readsBack_map {depth : Nat} {es : List (Item × Item)}
    (hlen : es.length < 0x10000000000000000)
    (h : ∀ e ∈ es, ReadsBack depth e.1 ∧ ReadsBack depth e.2) : ReadsBack (depth + 1) (.map es) :=
  fun rest => Cbor.itemWith_map hlen (fun e he => (h e he).1) (fun e he => (h e he).2) rest

theorem readsBack_unverifiedInfo {fingerprint : String}
    (h : (Utf8.encode fingerprint).length < 0x10000000000000000) (depth : Nat) :
    ReadsBack (depth + 1) (unverifiedInfo fingerprint) := by
  refine readsBack_map (by simp) fun e he => ?_
  rw [List.mem_singleton.1 he]
  exact ⟨readsBack_text (by decide) depth, readsBack_text h depth⟩

theorem read_macHeader : Cbor.read macHeader = some (.map [(.unsigned 1, .unsigned 5)], []) := by
  have hheader : macHeader = [0xA1, 0x01, 0x05] := by
    simp [macHeader, Cbor.write_map, Cbor.write]
    rfl
  rw [hheader]
  rfl

def Holds (key publicKey : Octets) : Prop :=
  ∃ parts, Cbor.read key = some (.array parts, []) ∧ parts[2]? = some (.bytes publicKey)

theorem Holds.unique {key publicKey publicKey' : Octets} (h : Holds key publicKey)
    (h' : Holds key publicKey') : publicKey = publicKey' := by
  obtain ⟨parts, hread, hkey⟩ := h
  obtain ⟨parts', hread', hkey'⟩ := h'
  cases hread.symm.trans hread'
  cases hkey.symm.trans hkey'
  rfl

theorem Holds.length_lt {key publicKey : Octets} (h : Holds key publicKey) :
    publicKey.length < key.length := by
  obtain ⟨parts, hread, hkey⟩ := h
  cases (Cbor.yields_item Cbor.maxDepth _ _ _ hread).2 with
  | array _ hparts =>
    cases hparts _ (List.mem_of_getElem? hkey) with
    | bytes hlen => exact hlen

def keysItem (publicKey : Item) (mac : Octets) : Item :=
  .array [.bytes macHeader, .map [], .bytes (Cbor.write (.array [publicKey])), .bytes mac]

theorem keysToSign_eq_ok_iff {key mac : Octets} {keys : Item} : keysToSign key mac = .ok keys ↔
    ∃ payload publicKey, Holds key payload ∧ Cbor.read payload = some (publicKey, []) ∧
      keys = keysItem publicKey mac := by
  unfold keysToSign Holds
  simp only [bind_eq_ok_iff, item_eq_ok_iff, array_eq_ok_iff, octets_eq_ok_iff, nth_eq_ok_iff]
  constructor
  · rintro ⟨_, hread, parts, rfl, _, hpayload, payload, rfl, publicKey, hpublicKey, h⟩
    cases h
    exact ⟨payload, publicKey, ⟨parts, hread, hpayload⟩, hpublicKey, rfl⟩
  · rintro ⟨payload, publicKey, ⟨parts, hread, hpayload⟩, hpublicKey, rfl⟩
    exact ⟨_, hread, parts, rfl, _, hpayload, payload, rfl, publicKey, hpublicKey, rfl⟩

def legacyItem (info data publicKey : Item) (fingerprint : String) (challenge mac : Octets) :
    Item :=
  .array [.array [info, unverifiedInfo fingerprint], .bytes challenge, data, keysItem publicKey mac]

theorem legacyCertificateRequest_eq_ok_iff {fingerprint : String} {challenge key : Octets}
    {parts : LegacyParts} {r : CertificateRequest} :
    legacyCertificateRequest fingerprint challenge key parts = .ok r ↔
      ∃ payload publicKey info data, Holds key payload ∧ Cbor.read payload = some (publicKey, []) ∧
        Cbor.read parts.deviceInfo = some (info, []) ∧
        Cbor.read parts.protectedData = some (data, []) ∧
          r = ⟨Cbor.write (legacyItem info data publicKey fingerprint challenge parts.keysMac),
            parts.deviceInfo⟩ := by
  unfold legacyCertificateRequest legacyCsr
  simp only [bind_eq_ok_iff, item_eq_ok_iff, keysToSign_eq_ok_iff]
  constructor
  · rintro ⟨_, ⟨payload, publicKey, hholds, hpublicKey, rfl⟩, _, ⟨info, hinfo, data, hdata, h⟩, h'⟩
    cases h
    cases h'
    exact ⟨payload, publicKey, info, data, hholds, hpublicKey, hinfo, hdata, rfl⟩
  · rintro ⟨payload, publicKey, info, data, hholds, hpublicKey, hinfo, hdata, rfl⟩
    exact ⟨_, ⟨payload, publicKey, hholds, hpublicKey, rfl⟩, _, ⟨info, hinfo, data, hdata, rfl⟩,
      rfl⟩

section

variable {challenge mac payload : Octets} {publicKey : Item}

theorem write_singleton (x : Item) : Cbor.write (.array [x]) = 0x81 :: Cbor.write x := by
  rw [Cbor.write_array]
  simp [Cbor.writeHead]

theorem readsBack_keysItem
    (hpayload : (Cbor.write (.array [publicKey])).length < 0x10000000000000000)
    (hmac : mac.length < 0x10000000000000000) (depth : Nat) :
    ReadsBack (depth + 2) (keysItem publicKey mac) := by
  have hheader : macHeader.length < 0x10000000000000000 := by
    simp [macHeader, Cbor.write_map, Cbor.write, Cbor.writeHead]
  have hempty : ReadsBack (depth + 1) (.map []) := readsBack_map (by simp) (by simp)
  refine readsBack_array (by simp) ?_
  simp only [List.forall_mem_cons]
  exact ⟨readsBack_bytes hheader _, hempty, readsBack_bytes hpayload _,
    readsBack_bytes hmac _, by simp⟩

/-- The items come back from what is written for the request, one level or two further in. -/
theorem read_legacyItem {info data : Item} {fingerprint : String}
    (hinfo : ReadsBack (Cbor.maxDepth - 2) info) (hdata : ReadsBack (Cbor.maxDepth - 1) data)
    (hpayload : (Cbor.write (.array [publicKey])).length < 0x10000000000000000)
    (hfingerprint : (Utf8.encode fingerprint).length < 0x10000000000000000)
    (hchallenge : challenge.length < 0x10000000000000000)
    (hmac : mac.length < 0x10000000000000000) :
    Cbor.read (Cbor.write (legacyItem info data publicKey fingerprint challenge mac)) =
      some (legacyItem info data publicKey fingerprint challenge mac, []) := by
  have hverified : ReadsBack (Cbor.maxDepth - 1) (.array [info, unverifiedInfo fingerprint]) := by
    refine @readsBack_array (Cbor.maxDepth - 2) _ (by simp) ?_
    simp only [List.forall_mem_cons]
    exact ⟨hinfo, readsBack_unverifiedInfo hfingerprint _, by simp⟩
  have hrequest : ReadsBack Cbor.maxDepth
    (legacyItem info data publicKey fingerprint challenge mac) := by
    refine @readsBack_array (Cbor.maxDepth - 1) _ (by simp) ?_
    simp only [List.forall_mem_cons]
    exact ⟨hverified, readsBack_bytes hchallenge _, hdata,
      readsBack_keysItem hpayload hmac _, by simp⟩
  simpa [Cbor.read] using hrequest []

end

structure Generates (p : Partner) (past : List Exchange) (hardware : HardwareInfo) (key : Octets) :
    Prop where
  hardwareInfo : p past (.device .hardwareInfo) = .ok hardware
  version : hardware.version < 3
  generateKey : p (past ++ [⟨.device .hardwareInfo, .ok hardware⟩])
    (.device (.generateKey false)) = .ok key

def generated (hardware : HardwareInfo) (key : Octets) : List Exchange :=
  [⟨.device .hardwareInfo, .ok hardware⟩, ⟨.device (.generateKey false), .ok key⟩]

/-- What is said with a device that generates the key and makes the parts, and what comes of it. -/
structure IsLegacyRequest (fingerprint : String) (keys : EndpointKeys) (hardware : HardwareInfo)
    (key : Octets) (parts : LegacyParts) (said : List Exchange) (r : Shaped CertificateRequest) :
    Prop where
  refused : keys.chains.get? hardware.curve = none → said = generated hardware key ∧
    r = .error (.malformed s!"no EEK chain for curve {hardware.curve.toInt}")
  asked : ∀ chain, keys.chains.get? hardware.curve = some chain →
    said = generated hardware key ++
      [⟨.device (.legacyRequest false [key] chain keys.challenge), .ok parts⟩]
  made_iff : (∃ made, r = .ok made) ↔ (keys.chains.get? hardware.curve).isSome ∧
    (∃ publicKey, Holds key publicKey ∧ IsItem publicKey) ∧ IsItem parts.deviceInfo ∧
    IsItem parts.protectedData
  deviceInfo : ∀ made, r = .ok made → made.deviceInfo = parts.deviceInfo
  csr : ∀ made publicKey keyItem info data, r = .ok made → Holds key publicKey →
    IsOwnForm Cbor.maxDepth publicKey keyItem →
    IsOwnForm (Cbor.maxDepth - 2) parts.deviceInfo info →
      IsOwnForm (Cbor.maxDepth - 1) parts.protectedData data →
        ∃ header, Cbor.read header = some (.map [(.unsigned 1, .unsigned 5)], []) ∧
          Cbor.read made.csr =
            some (.array [.array [info, .map [(.text "fingerprint", .text fingerprint)]],
            .bytes keys.challenge, data,
            .array [.bytes header, .map [], .bytes (0x81 :: publicKey), .bytes parts.keysMac]], [])

end Provisioning

namespace ProvisioningClient

open Provisioning

section

variable (c : ProvisioningClient) (keys : EndpointKeys) {p : Partner} {past : List Exchange}
    {hardware : HardwareInfo}
  {key : Octets} (h : Generates p past hardware key)
include h

theorem converse_generateRequest_refused (hchain : keys.chains.get? hardware.curve = none) :
    Session.converse p (c.generateRequest keys) past =
      (.error (.malformed s!"no EEK chain for curve {hardware.curve.toInt}"),
        past ++ generated hardware key) := by
  unfold generateRequest
  rw [Session.converse_bind_ok (Session.converse_device_ok h.hardwareInfo),
    Session.converse_bind_ok (Session.converse_device_ok h.generateKey), if_pos h.version, hchain,
    List.append_assoc]
  rfl

theorem converse_generateRequest_asked {chain : Octets} {parts : LegacyParts}
    (hchain : keys.chains.get? hardware.curve = some chain)
    (hparts : p (past ++ generated hardware key)
      (.device (.legacyRequest false [key] chain keys.challenge)) =
      .ok parts) :
    Session.converse p (c.generateRequest keys) past =
      (legacyCertificateRequest c.fingerprint keys.challenge key parts,
      past ++ (generated hardware key ++
        [⟨.device (.legacyRequest false [key] chain keys.challenge), .ok parts⟩])) := by
  unfold generateRequest
  rw [Session.converse_bind_ok (Session.converse_device_ok h.hardwareInfo),
    Session.converse_bind_ok (Session.converse_device_ok h.generateKey), if_pos h.version, hchain,
    List.append_assoc]
  change Session.converse p (Session.device _ >>= _) (past ++ generated hardware key) = _
  rw [Session.converse_bind_ok (Session.converse_device_ok hparts), List.append_assoc]
  rfl

/-- A device before version 3 is asked for a request exactly where there is a chain for its curve,
with that chain and the challenge, and what it made is sent exactly where each part is one item. -/
theorem generateRequest_isLegacyRequest {parts : LegacyParts}
    (hparts : ∀ chain, keys.chains.get? hardware.curve = some chain →
      p (past ++ generated hardware key)
      (.device (.legacyRequest false [key] chain keys.challenge)) = .ok parts)
    (hkey : key.length < 0x10000000000000000) (hmac : parts.keysMac.length < 0x10000000000000000)
    (hchallenge : keys.challenge.length < 0x10000000000000000)
    (hfingerprint : (Utf8.encode c.fingerprint).length < 0x10000000000000000) :
    ∃ said, (Session.converse p (c.generateRequest keys) past).2 = past ++ said ∧
      IsLegacyRequest c.fingerprint keys hardware key parts said
        (Session.converse p (c.generateRequest keys) past).1 := by
  cases hchain : keys.chains.get? hardware.curve with
  | none =>
    rw [c.converse_generateRequest_refused keys h hchain]
    refine ⟨_, rfl, fun _ => ⟨rfl, rfl⟩, fun chain hsome => ?_,
      ⟨fun ⟨made, hmade⟩ => ?_, fun hmade => ?_⟩,
      fun made hmade => ?_, fun made publicKey keyItem info data hmade => ?_⟩
    · cases hchain.symm.trans hsome
    · cases hmade
    · rw [hchain] at hmade
      cases hmade.1
    · cases hmade
    · cases hmade
  | some chain =>
    rw [c.converse_generateRequest_asked keys h hchain (hparts chain hchain)]
    refine ⟨_, rfl, fun hnone => ?_, fun chain' hsome => ?_, ?_, fun made hmade => ?_,
      fun made publicKey keyItem info data hmade hholds hown hinfo hdata => ?_⟩
    · cases hchain.symm.trans hnone
    · cases hchain.symm.trans hsome
      rfl
    · simp only [legacyCertificateRequest_eq_ok_iff, hchain, Option.isSome_some, true_and]
      constructor
      · rintro ⟨made, payload, publicKey, info, data, hholds, hpublicKey, hinfo, hdata, -⟩
        exact ⟨⟨payload, hholds, publicKey, hpublicKey⟩, ⟨info, hinfo⟩, data, hdata⟩
      · rintro ⟨⟨payload, hholds, publicKey, hpublicKey⟩, ⟨info, hinfo⟩, data, hdata⟩
        exact ⟨_, payload, publicKey, info, data, hholds, hpublicKey, hinfo, hdata, rfl⟩
    · obtain ⟨payload, publicKey, info, data, -, -, -, -, rfl⟩ :=
        legacyCertificateRequest_eq_ok_iff.1 hmade
      rfl
    · obtain ⟨payload, keyItem', info', data', hholds', hpublicKey, hinfo', hdata', rfl⟩ :=
        legacyCertificateRequest_eq_ok_iff.1 hmade
      obtain rfl := hholds.unique hholds'
      cases hpublicKey.symm.trans (hown.read_eq (Nat.le_refl _))
      cases hinfo'.symm.trans (hinfo.read_eq (by decide))
      cases hdata'.symm.trans (hdata.read_eq (by decide))
      have hpayload : Cbor.write (.array [keyItem]) = 0x81 :: publicKey := by
        rw [write_singleton, hown.written]
      have hlen : (Cbor.write (.array [keyItem])).length < 0x10000000000000000 := by
        have := hholds.length_lt
        rw [hpayload, List.length_cons]
        omega
      refine ⟨macHeader, read_macHeader, ?_⟩
      rw [← hpayload]
      exact read_legacyItem hinfo.readsBack hdata.readsBack hlen hfingerprint hchallenge hmac

end

end ProvisioningClient

/-! A device of version 2 and the request that comes about with it. -/

namespace SampleLegacyDevice

open Provisioning

def key : Octets := [0x84, 0x43, 0xA1, 0x01, 0x05, 0xA0, 0x43, 0xA1, 0x01, 0x02, 0x41, 0x44]

def parts : LegacyParts := ⟨[0xA1, 0x61, 0x62, 0x61, 0x61], [0x82, 0x40, 0x41, 0x66], [0x55]⟩

def partner : Partner := fun _ q =>
  match q with
  | .device .hardwareInfo => .ok ⟨2, 2⟩
  | .device (.generateKey _) => .ok key
  | .device (.legacyRequest ..) => .ok parts
  | .device (.authenticatedRequest ..) => .error (.device "not supported")
  | .server _ => .failed

def client : ProvisioningClient := ⟨"https://example.com", "acme/1", "1"⟩

def keys : EndpointKeys := ⟨.ofList [(2, [0x80])], [0x63]⟩

def info : Item := .map [(.text "b", .text "a")]

def data : Item := .array [.bytes [], .bytes [0x66]]

def publicKey : Item := .map [(.unsigned 1, .unsigned 2)]

theorem isOwnForm_info : IsOwnForm (Cbor.maxDepth - 2) parts.deviceInfo info :=
  ⟨rfl, by simp [info, Cbor.write_map, Cbor.write]; rfl⟩

theorem isOwnForm_data : IsOwnForm (Cbor.maxDepth - 1) parts.protectedData data :=
  ⟨rfl, by simp [data, Cbor.write_array, Cbor.write]; rfl⟩

theorem isOwnForm_publicKey : IsOwnForm Cbor.maxDepth [0xA1, 0x01, 0x02] publicKey :=
  ⟨rfl, by simp [publicKey, Cbor.write_map, Cbor.write]; rfl⟩

theorem holds : Holds key [0xA1, 0x01, 0x02] := ⟨_, rfl, rfl⟩

theorem generateRequest_legacy :
    ∃ made header, (Session.converse partner (client.generateRequest keys) []).1 = .ok made ∧
      made.deviceInfo = parts.deviceInfo ∧
      Cbor.read header = some (.map [(.unsigned 1, .unsigned 5)], []) ∧
        Cbor.read made.csr =
          some (.array [.array [info, .map [(.text "fingerprint", .text "acme/1")]], .bytes [0x63],
          data, .array [.bytes header, .map [], .bytes [0x81, 0xA1, 0x01, 0x02], .bytes [0x55]]],
          []) := by
  have hgenerates : Generates partner [] ⟨2, 2⟩ key := ⟨rfl, by decide, rfl⟩
  have hparts : ∀ chain, keys.chains.get? 2 = some chain →
      partner (generated ⟨2, 2⟩ key) (.device (.legacyRequest false [key] chain keys.challenge)) =
        .ok parts :=
    fun _ _ => rfl
  obtain ⟨said, -, hlegacy⟩ :=
    client.generateRequest_isLegacyRequest keys hgenerates hparts (by decide) (by decide)
    (by decide) (by decide)
  obtain ⟨made, hmade⟩ := hlegacy.made_iff.2 ⟨rfl, ⟨_, holds, publicKey, isOwnForm_publicKey.read⟩,
    ⟨info, isOwnForm_info.read_eq (by decide)⟩, data, isOwnForm_data.read_eq (by decide)⟩
  obtain ⟨header, hheader, hcsr⟩ :=
    hlegacy.csr made _ _ _ _ hmade holds isOwnForm_publicKey isOwnForm_info isOwnForm_data
  exact ⟨made, header, hmade, hlegacy.deviceInfo made hmade, hheader, hcsr⟩

end SampleLegacyDevice

end AttestedKey
