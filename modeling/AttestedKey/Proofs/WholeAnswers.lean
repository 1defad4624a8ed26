import AttestedKey.Proofs.FetchedKeys
import AttestedKey.Proofs.ItemFront
import AttestedKey.Proofs.LegacyRequest
import AttestedKey.Proofs.SigningAnswers

/-! How much of an answer counts. A client looks at the first `maxAnswer` octets of an answer and
asks that they be one data item with nothing behind it. What it makes of the answer is therefore
decided by where the item at its front ends (`IsTaken`): beyond the limit, before it, or on it. In
the last case the octets behind the item are never seen. -/

namespace AttestedKey

namespace ProvisioningClient

open Cbor (Item)
open Provisioning

inductive Call
  | fetch
  | sign (csr challenge : Octets)

namespace Call

abbrev Value : Call → Type
  | fetch => EndpointKeys
  | sign .. => Octets

def endpoint : Call → String
  | fetch => ":fetchEekChain"
  | sign .. => ":signCertificates"

def request (c : ProvisioningClient) : Call → HttpRequest
  | fetch => c.request ":fetchEekChain" [] c.endpointKeysBody
  | sign csr challenge =>
    c.request ":signCertificates" [("challenge", Base64.encode .urlSafe challenge)] csr

def session (c : ProvisioningClient) : (call : Call) → Session call.Value
  | fetch => c.fetchEndpointKeys
  | sign csr challenge => c.sign csr challenge

def means : (call : Call) → Item → Shaped call.Value
  | fetch => fun x => EndpointKeys.decode (Cbor.write x)
  | sign .. => certificates

end Call

/-- A request is one exchange, and its result goes by the outcome of that. -/
theorem converse_session (c : ProvisioningClient) (call : Call) (p : Partner)
    (past : List Exchange) :
    Session.converse p (call.session c) past =
      (c.received call.endpoint (p past (.server (call.request c))) >>= call.means,
        past ++ [⟨.server (call.request c), p past (.server (call.request c))⟩]) := by
  cases call with
  | fetch => exact c.converse_post _ _ _ _ p past
  | sign csr challenge => exact c.converse_post _ _ _ _ p past

/-- One item takes the front of the octets, and these are behind it. -/
def Starts (body front rest : Octets) (x : Item) : Prop :=
  body = front ++ rest ∧ Cbor.read body = some (x, rest)

theorem starts_of_read {body rest : Octets} {x : Item} (h : Cbor.read body = some (x, rest)) :
    ∃ front, Starts body front rest x := by
  obtain ⟨front, hbody, -⟩ := Cbor.isLocal_item Cbor.maxDepth _ _ _ h
  exact ⟨front, hbody, h⟩

theorem Starts.length_eq {body front rest : Octets} {x : Item} (h : Starts body front rest x) :
    body.length - rest.length = front.length := by
  rw [h.1, List.length_append, Nat.add_sub_cancel]

/-- What an answer at status 200 comes to. -/
structure IsTaken (call : Call) (body : Octets) (r : Shaped call.Value) : Prop where
  noItem : Cbor.read body = none → r = .error (.malformed call.endpoint)
  beyond : ∀ front rest x, Starts body front rest x → maxAnswer < front.length →
    r = .error (.malformed call.endpoint)
  /-- The item ends before the limit, and something stands behind it. Of that only what is within
  the limit counts. -/
  trailing : ∀ front rest x, Starts body front rest x → front.length < maxAnswer → rest ≠ [] →
    r = .error
      (.malformed s!"{call.endpoint}: {min (maxAnswer - front.length) rest.length} trailing bytes")
  taken : ∀ front rest x, Starts body front rest x → rest = [] ∧ front.length ≤ maxAnswer ∨
    front.length = maxAnswer →
    r = call.means x
  ok_iff : ∀ v, r = .ok v ↔ ∃ front rest x, Starts body front rest x ∧
    (rest = [] ∧ front.length ≤ maxAnswer ∨ front.length = maxAnswer) ∧ call.means x = .ok v
  /-- What is accepted is one item that is no longer than the limit, except where an item that is
  accepted ends on the limit and the answer goes on behind it. -/
  whole_iff : (∀ v, r = .ok v → body.length ≤ maxAnswer ∧ ∃ x, Cbor.read body = some (x, [])) ↔
    ¬ ∃ front rest x, Starts body front rest x ∧ front.length = maxAnswer ∧ rest ≠ [] ∧
      ∃ v, call.means x = .ok v

section

variable (call : Call) {body : Octets}

theorem item_take_of_none (h : Cbor.read body = none) :
    item call.endpoint (body.take maxAnswer) >>= call.means =
      .error (.malformed call.endpoint) := by
  have htake : Cbor.read (body.take maxAnswer) = none := by
    cases hread : Cbor.read (body.take maxAnswer) with
    | none => rfl
    | some p =>
      have hall := (Cbor.isLocal_item Cbor.maxDepth).append hread (body.drop maxAnswer)
      rw [List.take_append_drop] at hall
      cases h.symm.trans hall
  rw [item, htake]
  rfl

variable {front rest : Octets} {x : Item} (h : Starts body front rest x)
include h

theorem item_take_of_beyond (hlong : maxAnswer < front.length) :
    item call.endpoint (body.take maxAnswer) >>= call.means =
      .error (.malformed call.endpoint) := by
  rw [item, Cbor.read_take_eq_none h.2 (h.length_eq.symm ▸ hlong)]
  rfl

theorem item_take_of_le (hle : front.length ≤ maxAnswer) :
    item call.endpoint (body.take maxAnswer) =
      if (rest.take (maxAnswer - front.length)).isEmpty then .ok x
      else .error (.malformed
        s!"{call.endpoint}: {(rest.take (maxAnswer - front.length)).length} trailing bytes") := by
  rw [item, Cbor.read_take h.2 (h.length_eq.symm ▸ hle), h.length_eq]

theorem item_take_of_trailing (hlt : front.length < maxAnswer) (hrest : rest ≠ []) :
    item call.endpoint (body.take maxAnswer) >>= call.means =
      .error (.malformed
        s!"{call.endpoint}: {min (maxAnswer - front.length) rest.length} trailing bytes") := by
  have hseen : ¬ (rest.take (maxAnswer - front.length)).isEmpty = true := by
    rw [List.isEmpty_iff, List.take_eq_nil_iff]
    exact not_or.2 ⟨by omega, hrest⟩
  rw [item_take_of_le call h hlt.le, if_neg hseen, List.length_take]
  rfl

theorem item_take_of_taken
    (htaken : rest = [] ∧ front.length ≤ maxAnswer ∨ front.length = maxAnswer) :
    item call.endpoint (body.take maxAnswer) >>= call.means = call.means x := by
  have hle : front.length ≤ maxAnswer := htaken.elim (·.2) Nat.le_of_eq
  have hunseen : (rest.take (maxAnswer - front.length)).isEmpty = true := by
    rw [List.isEmpty_iff, List.take_eq_nil_iff]
    rcases htaken with ⟨hrest, -⟩ | hfull
    · exact .inr hrest
    · exact .inl (by omega)
  rw [item_take_of_le call h hle, if_pos hunseen]
  rfl

end

theorem item_take_eq_ok_iff (call : Call) {body : Octets} {v : call.Value} :
    item call.endpoint (body.take maxAnswer) >>= call.means = .ok v ↔
      ∃ front rest x, Starts body front rest x ∧
      (rest = [] ∧ front.length ≤ maxAnswer ∨ front.length = maxAnswer) ∧ call.means x = .ok v := by
  constructor
  · intro hok
    cases hread : Cbor.read body with
    | none => cases (item_take_of_none call hread).symm.trans hok
    | some p =>
      obtain ⟨x, rest⟩ := p
      obtain ⟨front, hstarts⟩ := starts_of_read hread
      by_cases htaken : rest = [] ∧ front.length ≤ maxAnswer ∨ front.length = maxAnswer
      · exact ⟨front, rest, x, hstarts, htaken,
          (item_take_of_taken call hstarts htaken).symm.trans hok⟩
      obtain ⟨hmore, hne⟩ := not_or.1 htaken
      rcases Nat.lt_or_gt_of_ne hne with hlt | hlong
      · have hrest : rest ≠ [] := fun hnil => hmore ⟨hnil, hlt.le⟩
        cases (item_take_of_trailing call hstarts hlt hrest).symm.trans hok
      · cases (item_take_of_beyond call hstarts hlong).symm.trans hok
  · rintro ⟨front, rest, x, hstarts, htaken, hv⟩
    exact (item_take_of_taken call hstarts htaken).trans hv

/-- Only an item that ends on the limit can be accepted with something behind it. -/
theorem item_take_whole_iff (call : Call) (body : Octets) :
    (∀ v, item call.endpoint (body.take maxAnswer) >>= call.means = .ok v →
        body.length ≤ maxAnswer ∧ ∃ x, Cbor.read body = some (x, [])) ↔
      ¬ ∃ front rest x, Starts body front rest x ∧ front.length = maxAnswer ∧ rest ≠ [] ∧
        ∃ v, call.means x = .ok v := by
  constructor
  · rintro hwhole ⟨front, rest, x, hstarts, hfull, hrest, v, hv⟩
    obtain ⟨-, y, hy⟩ :=
      hwhole v ((item_take_eq_ok_iff call).2 ⟨front, rest, x, hstarts, .inr hfull, hv⟩)
    cases hstarts.2.symm.trans hy
    exact hrest rfl
  · intro hnone v hok
    obtain ⟨front, rest, x, hstarts, htaken, hv⟩ := (item_take_eq_ok_iff call).1 hok
    have hrest : rest = [] := by
      rcases htaken with ⟨hrest, -⟩ | hfull
      · exact hrest
      · by_contra hrest
        exact hnone ⟨front, rest, x, hstarts, hfull, hrest, v, hv⟩
    have hle : front.length ≤ maxAnswer := htaken.elim (·.2) Nat.le_of_eq
    subst hrest
    refine ⟨?_, x, hstarts.2⟩
    rw [hstarts.1, List.append_nil]
    exact hle

/-- What an answer at status 200 comes to, if it may break off. -/
structure IsLookedAt (c : ProvisioningClient) (call : Call) (body : HttpBody)
    (r : Shaped call.Value) : Prop where
  brokenOff : ∀ cause, body.broken = some cause → body.octets.length < maxAnswer →
    r = .error (.network (c.endpointAddress call.endpoint ++ ": " ++ cause))
  seen : body.broken = none ∨ maxAnswer ≤ body.octets.length → IsTaken call body.octets r

/-- Whichever request it is, and whatever was said before, an answer at status 200 is taken for
what the item at its front says if that ends with the answer or on the limit, and it is an error
otherwise. -/
theorem answer_isTaken (c : ProvisioningClient) (call : Call) {p : Partner} {past : List Exchange}
    {body : HttpBody} (hanswer : p past (.server (call.request c)) = .answered 200 body) :
    IsLookedAt c call body (Session.converse p (call.session c) past).1 := by
  rw [c.converse_session, hanswer]
  change IsLookedAt c call body (c.received call.endpoint (.answered 200 body) >>= call.means)
  rw [received, if_pos rfl]
  constructor
  · intro cause hbroken hlen
    rw [HttpBody.upTo_eq_error_iff.2 ⟨hbroken, hlen⟩]
    rfl
  · intro hseen
    rw [HttpBody.upTo_eq_ok_iff.2 ⟨hseen, rfl⟩]
    exact {
      noItem := item_take_of_none call
      beyond := fun _ _ _ h => item_take_of_beyond call h
      trailing := fun _ _ _ h => item_take_of_trailing call h
      taken := fun _ _ _ h => item_take_of_taken call h
      ok_iff := fun _ => item_take_eq_ok_iff call
      whole_iff := item_take_whole_iff call body.octets }

end ProvisioningClient

namespace SampleOffer

open ProvisioningClient Provisioning

/-- An offer with an octet behind it is not taken. -/
theorem fetch_trailing :
    answering (body ++ [0]) [] (.server (Call.fetch.request client)) = .answered 200
      (body ++ [0] : Octets) ∧
    (Session.converse (answering (body ++ [0])) client.fetchEndpointKeys []).1 =
      .error (.malformed ":fetchEekChain: 1 trailing bytes") := by
  have hanswer : answering (body ++ [0]) [] (.server (Call.fetch.request client)) =
      .answered 200 (body ++ [0] : Octets) := rfl
  have htaken := (client.answer_isTaken .fetch hanswer).seen (.inl rfl)
  exact ⟨hanswer, htaken.trailing body [0] item ⟨rfl, rfl⟩ (by decide) (by simp)⟩

end SampleOffer

/-! Certificates in an item that ends on the limit: one octet for the key's own certificate, one
for those that all share, and as many zeros behind them as fill it up. -/

namespace FullAnswer

open Cbor (Item)
open ProvisioningClient Provisioning

def padding : Octets := List.replicate 0xFFFF5 0

def item : Item := .array [.bytes [0xAA], .array [.bytes [0xBB]], .bytes padding]

theorem write_item :
    Cbor.write item = [0x83, 0x41, 0xAA, 0x81, 0x41, 0xBB, 0x5A, 0x00, 0x0F, 0xFF, 0xF5] ++
      padding := by
  have hpadding : Cbor.write (.bytes padding) = [0x5A, 0x00, 0x0F, 0xFF, 0xF5] ++ padding := by
    rw [Cbor.write, padding, List.length_replicate]
    rfl
  rw [item, Cbor.write_array, List.flatMap_cons, List.flatMap_cons, List.flatMap_cons, hpadding,
    Cbor.write_array]
  simp [Cbor.write]
  rfl

theorem length_write_item : (Cbor.write item).length = maxAnswer := by
  rw [write_item, List.length_append, padding, List.length_replicate]
  rfl

theorem read_item (rest : Octets) : Cbor.read (Cbor.write item ++ rest) = some (item, rest) := by
  have hpadding : padding.length < 0x10000000000000000 := by
    rw [padding, List.length_replicate]
    decide
  have hown : ReadsBack (Cbor.maxDepth - 1) (.array [.bytes [0xBB]]) := by
    refine @readsBack_array (Cbor.maxDepth - 2) _ (by decide) ?_
    simp only [List.forall_mem_cons]
    exact ⟨readsBack_bytes (by decide) _, by simp⟩
  have hitem : ReadsBack Cbor.maxDepth item := by
    refine @readsBack_array (Cbor.maxDepth - 1) _ (by decide) ?_
    simp only [List.forall_mem_cons]
    exact ⟨readsBack_bytes (by decide) _, hown, readsBack_bytes hpadding _, by simp⟩
  exact hitem rest

/-- The certificates are taken although the answer is longer than the limit and goes on behind the
item. -/
theorem sign_in_part :
    ∃ answer : Octets, answer.length = maxAnswer + 1 ∧ Cbor.read answer = some (item, [0]) ∧
    ∀ csr challenge,
      (Session.converse (SampleOffer.answering answer) (SampleOffer.client.sign csr challenge)
      []).1 =
      .ok [0xBB, 0xAA] := by
  refine ⟨Cbor.write item ++ [0], ?_, read_item [0], fun csr challenge => ?_⟩
  · rw [List.length_append, length_write_item]
    rfl
  · have hread : Cbor.read ((Cbor.write item ++ [0]).take maxAnswer) = some (item, []) := by
      rw [← length_write_item, List.take_left]
      simpa using read_item []
    refine (congrArg Prod.fst (SampleOffer.client.converse_post _ _ _ certificates _ [])).trans ?_
    refine bind_eq_ok_iff.2 ⟨item, ?_, rfl⟩
    exact SampleOffer.client.received_eq_ok_iff.2 ⟨_, _, rfl, HttpBody.upTo_whole _ _, hread⟩

end FullAnswer

end AttestedKey
