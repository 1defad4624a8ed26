import AttestedKey.Proofs.ItemFront
import AttestedKey.Proofs.ObjectFront
import AttestedKey.Record.EntityToken
import AttestedKey.Record.KeyDescription
import AttestedKey.Record.ProvisioningInfo
import Mathlib.Order.Antichain

/-! Decoders that are given one object or data item and take all of it (`TakesWhole`). What is
accepted is refused as soon as anything stands behind it, which is counted, or any part of it is
gone from its end. So no accepted input begins another. All this holds of whatever is made of the
one thing that a reader takes, if the reader goes by what it takes alone. -/

namespace AttestedKey

/-- The decoder accepts its input as it stands, with nothing behind it and nothing cut off. -/
structure TakesWhole {α : Type} (what : String) (decode : Octets → Decoded α) : Prop where
  trailing : ∀ bs a more, decode bs = .ok a → more ≠ [] →
    decode (bs ++ more) = .error (.malformed s!"{what}: {more.length} trailing bytes")
  truncated : ∀ bs a front, decode bs = .ok a → front <+: bs → front ≠ bs →
    decode front = .error (.syntaxError what)
  prefixFree : IsAntichain (· <+: ·) {bs | ∃ a, decode bs = .ok a}

section

variable {α β : Type} {what : String}

theorem TakesWhole.of_truncated {decode : Octets → Decoded α}
    (htrailing : ∀ bs a more, decode bs = .ok a → more ≠ [] →
      decode (bs ++ more) = .error (.malformed s!"{what}: {more.length} trailing bytes"))
    (htruncated : ∀ bs a front, decode bs = .ok a → front <+: bs → front ≠ bs →
      decode front = .error (.syntaxError what)) : TakesWhole what decode := by
  refine ⟨htrailing, htruncated, ?_⟩
  rintro front ⟨a, hfront⟩ bs ⟨b, hbs⟩ hne hbegins
  cases hfront.symm.trans (htruncated bs b front hbs hbegins hne)

namespace Reader

variable {item : Reader α} (hitem : IsLocal item) {bs : Octets} {a : α}
    (hread : item bs = some (a, []))
include hitem hread

theorem IsLocal.read_append (more : Octets) : item (bs ++ more) = some (a, more) := by
  obtain ⟨front, rfl, hfront⟩ := hitem _ _ _ hread
  rw [List.append_nil]
  exact hfront more

/-- What could be read of a part would be read of all, and something would be left. -/
theorem IsLocal.read_eq_none_of_part {part : Octets} (hbegins : part <+: bs) (hne : part ≠ bs) :
    item part = none := by
  obtain ⟨missing, rfl⟩ := hbegins
  cases hpart : item part with
  | none => rfl
  | some p =>
    obtain ⟨b, left⟩ := p
    obtain ⟨front, rfl, hfront⟩ := hitem _ _ _ hpart
    rw [List.append_assoc, hfront, Option.some_inj, Prod.mk.injEq, List.append_eq_nil_iff] at hread
    obtain ⟨-, -, rfl⟩ := hread
    exact absurd (List.append_nil _).symm hne

end Reader

/-- Reading all of the octets as one item. -/
theorem takesWhole_readWhole {item : Reader α} (hitem : Reader.IsLocal item) (what : String) :
    TakesWhole what (readWhole item what) := by
  refine .of_truncated (fun bs a more hok hmore => ?_) fun bs a front hok hbegins hne => ?_
  · have hrest : ¬ more.isEmpty = true := by rwa [List.isEmpty_iff]
    rw [readWhole, hitem.read_append (readWhole_eq_ok_iff.1 hok)]
    exact if_neg hrest
  · rw [readWhole, hitem.read_eq_none_of_part (readWhole_eq_ok_iff.1 hok) hbegins hne]

/-- What is made of the item comes after. -/
theorem TakesWhole.bind {decode : Octets → Decoded α} (h : TakesWhole what decode)
    (mean : α → Decoded β) : TakesWhole what fun bs => decode bs >>= mean := by
  refine .of_truncated (fun bs b more hok hmore => ?_) fun bs b front hok hbegins hne => ?_
  · obtain ⟨a, ha, -⟩ := bind_eq_ok_iff.1 hok
    rw [h.trailing bs a more ha hmore]
    rfl
  · obtain ⟨a, ha, -⟩ := bind_eq_ok_iff.1 hok
    rw [h.truncated bs a front ha hbegins hne]
    rfl

/-- An input that is accepted, but neither with octets behind it nor without those at its end. -/
structure IsDelimited (what : String) (decode : Octets → Decoded α) (bs : Octets) : Prop where
  accepted : ∃ a, decode bs = .ok a
  append : ∀ more ≠ [], decode (bs ++ more) =
    .error (.malformed s!"{what}: {more.length} trailing bytes")
  take : ∀ n < bs.length, decode (bs.take n) = .error (.syntaxError what)

theorem TakesWhole.isDelimited {decode : Octets → Decoded α} (h : TakesWhole what decode)
    {bs : Octets} (hok : (decode bs).toOption.isSome) : IsDelimited what decode bs := by
  obtain ⟨a, ha⟩ := Option.isSome_iff_exists.1 hok
  have haccepted : decode bs = .ok a := toOption_eq_some_iff.1 ha
  refine ⟨⟨a, haccepted⟩, fun more => h.trailing bs a more haccepted, fun n hlt => ?_⟩
  refine h.truncated bs a _ haccepted ⟨bs.drop n, List.take_append_drop n bs⟩ fun heq => ?_
  rw [List.take_eq_self_iff] at heq
  omega

end

theorem Ber.Object.takesWhole_ofOctets (what : String) :
    TakesWhole what (Ber.Object.ofOctets what) :=
  takesWhole_readWhole (Ber.isLocal_object Ber.maxDepth) what

theorem Cbor.Item.takesWhole_ofOctets (what : String) : TakesWhole what (Cbor.Item.ofOctets what) :=
  takesWhole_readWhole (Cbor.isLocal_item Cbor.maxDepth) what

/-- Objects and data items, and all records that are made of one. -/
theorem decoders_takeWhole :
    (∀ what, TakesWhole what (Ber.Object.ofOctets what)) ∧
    (∀ what, TakesWhole what (Cbor.Item.ofOctets what)) ∧
      TakesWhole "key-description" KeyDescription.decode ∧
      TakesWhole "authorization-list" AuthorizationList.decode ∧
      TakesWhole "root-of-trust" RootOfTrust.decode ∧
      TakesWhole "attestation-application-id" ApplicationId.decode ∧
      TakesWhole "eat" EntityToken.decode ∧
      TakesWhole "provisioning-info" ProvisioningInfo.decode :=
  ⟨Ber.Object.takesWhole_ofOctets, Cbor.Item.takesWhole_ofOctets,
    (Ber.Object.takesWhole_ofOctets _).bind _, (Ber.Object.takesWhole_ofOctets _).bind _,
    (Ber.Object.takesWhole_ofOctets _).bind _, (Ber.Object.takesWhole_ofOctets _).bind _,
    (Cbor.Item.takesWhole_ofOctets _).bind _, (Cbor.Item.takesWhole_ofOctets _).bind _⟩

/-! Inputs that are accepted, some with lengths in the long and the indefinite form. -/

namespace SampleInput

def list : Octets :=
  [0x30, 0x80, 0xBF, 0x85, 0x41, 0x81, 0x05, 0x02, 0x03, 0x02, 0x22, 0xE0, 0x00, 0x00]

def token : Octets :=
  [0xBF, 0x3A, 0x00, 0x01, 0x24, 0xFF, 0x5F, 0x41, 0x01, 0x41, 0x02, 0xFF, 0x3A, 0x00, 0x01, 0x28,
    0xE1, 0x03, 0xFF]

def keyDescription : Octets :=
  [0x30, 0x14, 0x02, 0x01, 0x01, 0x0A, 0x01, 0x00, 0x02, 0x01, 0x01, 0x0A, 0x01, 0x00, 0x04, 0x00,
    0x04, 0x00, 0x30, 0x00, 0x30, 0x00]

def rootOfTrust : Octets :=
  [0x30, 0x80, 0x04, 0x01, 0xAA, 0x01, 0x01, 0xFF, 0x0A, 0x01, 0x00, 0x00, 0x00]

def applicationId : Octets := [0x30, 0x04, 0x31, 0x00, 0x31, 0x00]

def provisioningInfo : Octets := [0xBF, 0x01, 0x07, 0xFF]

theorem inputs_areDelimited :
    IsDelimited "object" (Ber.Object.ofOctets "object") list ∧
      IsDelimited "item" (Cbor.Item.ofOctets "item") token ∧
      IsDelimited "key-description" KeyDescription.decode keyDescription ∧
      IsDelimited "authorization-list" AuthorizationList.decode list ∧
      IsDelimited "root-of-trust" RootOfTrust.decode rootOfTrust ∧
      IsDelimited "attestation-application-id" ApplicationId.decode applicationId ∧
      IsDelimited "eat" EntityToken.decode token ∧
      IsDelimited "provisioning-info" ProvisioningInfo.decode provisioningInfo := by
  obtain ⟨hobject, hitem, hkey, hlist, hroot, hid, htoken, hinfo⟩ := decoders_takeWhole
  exact ⟨(hobject "object").isDelimited (by decide +kernel),
    (hitem "item").isDelimited (by decide +kernel), hkey.isDelimited (by decide +kernel),
    hlist.isDelimited (by decide +kernel), hroot.isDelimited (by decide +kernel),
    hid.isDelimited (by decide +kernel), htoken.isDelimited (by decide +kernel),
    hinfo.isDelimited (by decide +kernel)⟩

end SampleInput

end AttestedKey
