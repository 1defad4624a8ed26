import AttestedKey.Proofs.Conversation
import AttestedKey.Proofs.ItemReading
import AttestedKey.Proofs.ShapedItems
import AttestedKey.Provisioning.Client

/-! Certificate requests from devices of version 3 on. The device signs its part, and what is sent
is that part with one element behind it; since an item that has been read comes back from what is
written for it, nothing that the device signed is changed on the way, although it is taken apart
and written anew. -/

namespace AttestedKey

open Cbor (Item)

namespace Provisioning

/-- The info on the device in the elements of an authenticated request. It lies in the payload of
the request, which lies in the payload of the signed data. -/
def Carries (xs : List Item) (info : List (Item × Item)) : Prop :=
  ∃ signed payload parts inner csr, xs[3]? = some (.array signed) ∧
    signed[2]? = some (.bytes payload) ∧
    Cbor.read payload = some (.array parts, []) ∧ parts[1]? = some (.bytes inner) ∧
    Cbor.read inner = some (.array csr, []) ∧ csr[2]? = some (.map info)

theorem signedInfo_eq_ok_iff {x y : Item} :
    signedInfo x = .ok y ↔ ∃ xs info, x = .array xs ∧ Carries xs info ∧ y = .map info := by
  unfold signedInfo Carries
  simp only [bind_eq_ok_iff, item_eq_ok_iff, array_eq_ok_iff, octets_eq_ok_iff, nth_eq_ok_iff]
  constructor
  · rintro ⟨xs, rfl, _, hsigned, signed, rfl, _, hpayload, payload, rfl, _, hparts, parts, rfl, _,
      hinner, inner, rfl, _, hcsr, csr, rfl, x, hinfo, h⟩
    split at h
    · next hmap =>
      obtain ⟨info, rfl⟩ := isSome_map?_iff.1 hmap
      cases h
      exact ⟨xs, info, rfl,
        ⟨signed, payload, parts, inner, csr, hsigned, hpayload, hparts, hinner, hcsr, hinfo⟩, rfl⟩
    · cases h
  · rintro ⟨xs, info, rfl,
      ⟨signed, payload, parts, inner, csr, hsigned, hpayload, hparts, hinner, hcsr, hinfo⟩, rfl⟩
    exact ⟨xs, rfl, _, hsigned, signed, rfl, _, hpayload, payload, rfl, _, hparts, parts, rfl, _,
      hinner, inner, rfl, _, hcsr, csr, rfl, _, hinfo, rfl⟩

theorem Carries.unique {xs : List Item} {info info' : List (Item × Item)} (h : Carries xs info)
    (h' : Carries xs info') : info = info' := by
  obtain ⟨signed, payload, parts, inner, csr, hsigned, hpayload, hparts, hinner, hcsr, hinfo⟩ := h
  obtain ⟨signed', payload', parts', inner', csr', hsigned', hpayload', hparts', hinner', hcsr',
    hinfo'⟩ := h'
  rw [hsigned] at hsigned'
  cases hsigned'
  rw [hpayload] at hpayload'
  cases hpayload'
  rw [hparts] at hparts'
  cases hparts'
  rw [hinner] at hinner'
  cases hinner'
  rw [hcsr] at hcsr'
  cases hcsr'
  rw [hinfo] at hinfo'
  cases hinfo'
  rfl

/-- Elements behind the others do not move the info. -/
theorem Carries.append {xs : List Item} {info : List (Item × Item)} (h : Carries xs info)
    (ys : List Item) : Carries (xs ++ ys) info := by
  obtain ⟨signed, payload, parts, inner, csr, hsigned, h⟩ := h
  refine ⟨signed, payload, parts, inner, csr, ?_, h⟩
  rw [List.getElem?_append_left (List.getElem?_eq_some_iff.1 hsigned).1, hsigned]

theorem authenticatedCertificateRequest_eq_ok_iff {fingerprint : String} {made : Octets}
    {r : CertificateRequest} :
    authenticatedCertificateRequest fingerprint made = .ok r ↔
      ∃ xs info, Cbor.read made = some (.array xs, []) ∧ Carries xs info ∧
        r = ⟨Cbor.write (.array (xs ++ [unverifiedInfo fingerprint])), Cbor.write (.map info)⟩ := by
  unfold authenticatedCertificateRequest completedCsr
  simp only [bind_eq_ok_iff, item_eq_ok_iff, signedInfo_eq_ok_iff, array_eq_ok_iff]
  constructor
  · rintro ⟨_, hmade, _, ⟨xs, info, rfl, hcarries, rfl⟩, _, ⟨_, heq, h⟩, h'⟩
    cases heq
    cases h
    cases h'
    exact ⟨xs, info, hmade, hcarries, rfl⟩
  · rintro ⟨xs, info, hmade, hcarries, rfl⟩
    exact ⟨_, hmade, _, ⟨xs, info, rfl, hcarries, rfl⟩, _, ⟨xs, rfl, rfl⟩, rfl⟩

theorem not_hasBignum_unverifiedInfo (fingerprint : String) :
    ¬ (unverifiedInfo fingerprint).HasBignum := by
  intro h
  cases h with
  | key he h =>
    rw [List.mem_singleton.1 he] at h
    cases h
  | value he h =>
    rw [List.mem_singleton.1 he] at h
    cases h

/-- The elements that have been read come back from what is sent, with the unverified info behind
them. -/
theorem read_completed {fingerprint : String} {made : Octets} {xs : List Item}
    (hmade : Cbor.read made = some (.array xs, [])) (hlen : made.length < 0x10000000000000000)
    (hfingerprint : (Utf8.encode fingerprint).length < 0x10000000000000000)
    (hb : ¬ (Item.array xs).HasBignum) :
    Cbor.read (Cbor.write (.array (xs ++ [unverifiedInfo fingerprint]))) =
      some (.array (xs ++ [unverifiedInfo fingerprint]), []) := by
  have hunverified : (unverifiedInfo fingerprint).Fits 0x10000000000000000 255 := by
    refine .map (by simp) ?_ ?_
    · intro e he
      rw [List.mem_singleton.1 he]
      exact .text (by decide)
    · intro e he
      rw [List.mem_singleton.1 he]
      exact .text hfingerprint
  have hfits : (Item.array (xs ++ [unverifiedInfo fingerprint])).Fits 0x10000000000000000 256 := by
    have hread := (Cbor.yields_item Cbor.maxDepth _ _ _ hmade).2
    cases hread with
    | array hxs hitems =>
      refine .array (by rw [List.length_append, List.length_singleton]; omega) ?_
      intro x hx
      rcases List.mem_append.1 hx with hx | hx
      · exact (hitems x hx).mono hlen.le
      · rw [List.mem_singleton.1 hx]
        exact hunverified
  have hbig : ¬ (Item.array (xs ++ [unverifiedInfo fingerprint])).HasBignum := by
    intro h
    cases h with
    | element hx h =>
      rcases List.mem_append.1 hx with hx | hx
      · exact hb (.element hx h)
      · rw [List.mem_singleton.1 hx] at h
        exact not_hasBignum_unverifiedInfo fingerprint h
  have hread := Cbor.item_write hfits hbig []
  rwa [List.append_nil] at hread

/-- Asked after all that has been said, the device is of version 3 or a later one, generates `key`,
and makes `made` with the key and the challenge. -/
structure Makes (p : Partner) (past : List Exchange) (challenge made : Octets)
    (hardware : HardwareInfo) (key : Octets) : Prop where
  hardwareInfo : p past (.device .hardwareInfo) = .ok hardware
  version : 3 ≤ hardware.version
  generateKey : p (past ++ [⟨.device .hardwareInfo, .ok hardware⟩])
    (.device (.generateKey false)) = .ok key
  authenticatedRequest :
    p (past ++ [⟨.device .hardwareInfo, .ok hardware⟩] ++ [⟨.device (.generateKey false), .ok key⟩])
      (.device (.authenticatedRequest [key] challenge)) = .ok made

end Provisioning

namespace ProvisioningClient

open Provisioning

theorem converse_generateRequest (c : ProvisioningClient) (keys : EndpointKeys) {p : Partner}
    {past : List Exchange} {made key : Octets} {hardware : HardwareInfo}
    (h : Makes p past keys.challenge made hardware key) :
    (Session.converse p (c.generateRequest keys) past).1 =
      authenticatedCertificateRequest c.fingerprint made := by
  unfold generateRequest
  rw [Session.converse_bind_ok (Session.converse_device_ok h.hardwareInfo),
    Session.converse_bind_ok (Session.converse_device_ok h.generateKey)]
  have hversion : ¬ hardware.version < 3 := by
    have := h.version
    simp [Int32.le_iff_toInt_le, Int32.lt_iff_toInt_lt] at this ⊢
    omega
  rw [if_neg hversion, Session.converse_bind_ok (Session.converse_device_ok h.authenticatedRequest)]
  rfl

/-- Of what a device of version 3 on made, a request comes about exactly where it is one data item
with the info on the device in its place, and the device's elements are sent as they are, with one
more behind them. -/
theorem generateRequest_authenticated (c : ProvisioningClient) (keys : EndpointKeys) {p : Partner}
    {past : List Exchange} {made key : Octets} {hardware : HardwareInfo}
    (hmakes : Makes p past keys.challenge made hardware key)
    (hlen : made.length < 0x10000000000000000)
    (hfingerprint : (Utf8.encode c.fingerprint).length < 0x10000000000000000)
    (hb : ∀ x, Cbor.read made = some (x, []) → ¬ x.HasBignum) :
    ((∃ r, (Session.converse p (c.generateRequest keys) past).1 = .ok r) ↔
        ∃ xs info, Cbor.read made = some (.array xs, []) ∧ Carries xs info) ∧
      ∀ r, (Session.converse p (c.generateRequest keys) past).1 = .ok r →
        ∃ xs info, Cbor.read made = some (.array xs, []) ∧ Carries xs info ∧
          Cbor.read r.csr =
            some (.array (xs ++ [.map [(.text "fingerprint", .text c.fingerprint)]]), []) ∧
          r.deviceInfo = Cbor.write (.map info) ∧
          item "CSR" r.csr >>= signedInfo = .ok (.map info) := by
  simp only [c.converse_generateRequest keys hmakes, authenticatedCertificateRequest_eq_ok_iff]
  constructor
  · constructor
    · rintro ⟨r, xs, info, hmade, hcarries, -⟩
      exact ⟨xs, info, hmade, hcarries⟩
    · rintro ⟨xs, info, hmade, hcarries⟩
      exact ⟨_, xs, info, hmade, hcarries, rfl⟩
  · rintro r ⟨xs, info, hmade, hcarries, rfl⟩
    have hread := read_completed hmade hlen hfingerprint (hb _ hmade)
    refine ⟨xs, info, hmade, hcarries, hread, rfl, ?_⟩
    rw [bind_eq_ok_iff]
    exact ⟨_, item_eq_ok_iff.2 hread, signedInfo_eq_ok_iff.2 ⟨_, info, rfl, hcarries.append _, rfl⟩⟩

end ProvisioningClient

/-! A device that makes a small request, and the request that comes about with it. -/

namespace SampleDevice

open Provisioning

def info : List (Item × Item) := [(.text "brand", .text "acme")]

def inner : Octets :=
  [0x84, 0x03, 0x67, 0x6B, 0x65, 0x79, 0x6D, 0x69, 0x6E, 0x74, 0xA1, 0x65, 0x62, 0x72, 0x61, 0x6E,
    0x64, 0x64, 0x61,
   0x63, 0x6D, 0x65, 0x80]

def payload : Octets :=
  [0x82, 0x42, 0x01, 0x02, 0x57, 0x84, 0x03, 0x67, 0x6B, 0x65, 0x79, 0x6D, 0x69, 0x6E, 0x74, 0xA1,
    0x65, 0x62, 0x72,
   0x61, 0x6E, 0x64, 0x64, 0x61, 0x63, 0x6D, 0x65, 0x80]

def made : Octets :=
  [0x84, 0x01, 0xA0, 0x80, 0x84, 0x40, 0xA0, 0x58, 0x1C, 0x82, 0x42, 0x01, 0x02, 0x57, 0x84, 0x03,
    0x67, 0x6B, 0x65,
   0x79, 0x6D, 0x69, 0x6E, 0x74, 0xA1, 0x65, 0x62, 0x72, 0x61, 0x6E, 0x64, 0x64, 0x61, 0x63, 0x6D,
   0x65, 0x80, 0x41, 0x05]

def elements : List Item :=
  [.unsigned 1, .map [], .array [], .array [.bytes [], .map [], .bytes payload, .bytes [5]]]

theorem read_made : Cbor.read made = some (.array elements, []) := rfl

theorem carries : Carries elements info :=
  ⟨_, payload, [.bytes [1, 2], .bytes inner], inner,
    [.unsigned 3, .text "keymint", .map info, .array []], rfl, rfl,
    rfl, rfl, rfl, rfl⟩

theorem not_hasBignum : ¬ (Item.array elements).HasBignum := by
  intro h
  cases h with
  | element hx h =>
    simp only [elements, List.mem_cons, List.not_mem_nil, or_false] at hx
    rcases hx with rfl | rfl | rfl | rfl
    · cases h
    · cases h with
      | key he => cases he
      | value he => cases he
    · cases h with
      | element hy => cases hy
    · cases h with
      | element hy h =>
        simp only [List.mem_cons, List.not_mem_nil, or_false] at hy
        rcases hy with rfl | rfl | rfl | rfl
        · cases h
        · cases h with
          | key he => cases he
          | value he => cases he
        · cases h
        · cases h

def partner : Partner := fun _ q =>
  match q with
  | .device .hardwareInfo => .ok ⟨3, 0⟩
  | .device (.generateKey _) => .ok [4]
  | .device (.legacyRequest ..) => .error (.device "not supported")
  | .device (.authenticatedRequest ..) => .ok made
  | .server _ => .failed

theorem makes (past : List Exchange) (challenge : Octets) :
    Makes partner past challenge made ⟨3, 0⟩ [4] :=
  ⟨rfl, by decide, rfl, rfl⟩

def client : ProvisioningClient := ⟨"https://example.com", "acme/1", "1"⟩

def keys : EndpointKeys := ⟨.empty, [1, 2]⟩

theorem generateRequest_sample :
    ∃ r, (Session.converse partner (client.generateRequest keys) []).1 = .ok r ∧
      Cbor.read r.csr = some (.array (elements ++ [.map [(.text "fingerprint", .text "acme/1")]]),
        []) ∧
      r.deviceInfo = Cbor.write (.map info) ∧
      item "CSR" r.csr >>= signedInfo = .ok (.map info) := by
  have hb : ∀ x, Cbor.read made = some (x, []) → ¬ x.HasBignum := by
    intro x hx
    rw [read_made] at hx
    cases hx
    exact not_hasBignum
  obtain ⟨hiff, hall⟩ :=
    client.generateRequest_authenticated keys (makes [] keys.challenge) (by decide) (by decide) hb
  obtain ⟨r, hr⟩ := hiff.2 ⟨elements, info, read_made, carries⟩
  obtain ⟨xs, info', hmade, hcarries, hcsr, hinfo, hsigned⟩ := hall r hr
  rw [read_made] at hmade
  cases hmade
  obtain rfl := carries.unique hcarries
  exact ⟨r, hr, hcsr, hinfo, hsigned⟩

end SampleDevice

end AttestedKey
