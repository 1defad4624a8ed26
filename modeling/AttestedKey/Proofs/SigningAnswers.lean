import AttestedKey.Proofs.ProvisioningSession
import AttestedKey.Proofs.Text

/-! What an answer to a request for certificates means. Every outcome of the exchange is told apart
(`IsAnswer`): none, the two statuses that stand for themselves, any other status with its text, and
at status 200 a body that holds the certificates or one that does not, for a reason that the detail
names (`Unusable`). -/

namespace AttestedKey.ProvisioningClient

open Cbor (Item)
open Provisioning

/-- A body that is one data item, and has the certificates at their places. What follows them is
not looked at. -/
def Holds (body leaf shared : Octets) : Prop :=
  ∃ own more, Cbor.read body =
    some (.array (.bytes shared :: .array (.bytes leaf :: own) :: more), [])

/-- An item that lacks the certificates, and the first thing that is wrong with it. -/
inductive Misshapen : Item → String → Prop
  | notArray {x : Item} (h : ∀ xs, x ≠ .array xs) :
      Misshapen x "signCertificates response MUST be array"
  | noShared : Misshapen (.array []) "signCertificates response: expecting at least 1 items"
  | sharedNotOctets {x : Item} {more : List Item} (h : ∀ bs, x ≠ .bytes bs) :
      Misshapen (.array (x :: more)) "shared certs MUST be bstr"
  | noOwn {shared : Octets} :
      Misshapen (.array [.bytes shared]) "signCertificates response: expecting at least 2 items"
  | ownNotArray {shared : Octets} {x : Item} {more : List Item} (h : ∀ xs, x ≠ .array xs) :
      Misshapen (.array (.bytes shared :: x :: more)) "unique certs MUST be array"
  | noLeaf {shared : Octets} {more : List Item} :
      Misshapen (.array (.bytes shared :: .array [] :: more))
        "unique certs: expecting at least 1 items"
  | leafNotOctets {shared : Octets} {x : Item} {own more : List Item} (h : ∀ bs, x ≠ .bytes bs) :
      Misshapen (.array (.bytes shared :: .array (x :: own) :: more)) "unique cert MUST be bstr"

/-- A body without the certificates, and the detail of the error. -/
inductive Unusable (body : Octets) : String → Prop
  | unreadable (h : Cbor.read body = none) : Unusable body ":signCertificates"
  | trailing {x : Item} {rest : Octets} (h : Cbor.read body = some (x, rest)) (hrest : rest ≠ []) :
      Unusable body s!":signCertificates: {rest.length} trailing bytes"
  | misshapen {x : Item} {detail : String} (h : Cbor.read body = some (x, []))
      (hx : Misshapen x detail) :
      Unusable body detail

theorem array?_eq_none {x : Item} (h : ∀ xs, x ≠ .array xs) : x.array? = none := by
  cases x with
  | array xs => exact absurd rfl (h xs)
  | _ => rfl

theorem bytes?_eq_none {x : Item} (h : ∀ bs, x ≠ .bytes bs) : x.bytes? = none := by
  cases x with
  | bytes bs => exact absurd rfl (h bs)
  | _ => rfl

theorem certificates_eq_error {x : Item} {detail : String} (h : Misshapen x detail) :
    certificates x = .error (.malformed detail) := by
  unfold certificates
  cases h with
  | notArray h =>
    rw [array, array?_eq_none h]
    rfl
  | noShared => rfl
  | @sharedNotOctets x more h =>
    change (octets "shared certs" x >>= _) = _
    rw [octets, bytes?_eq_none h]
    rfl
  | noOwn => rfl
  | @ownNotArray shared x more h =>
    change (array "unique certs" x >>= _) = _
    rw [array, array?_eq_none h]
    rfl
  | noLeaf => rfl
  | @leafNotOctets shared x own more h =>
    change (octets "unique cert" x >>= _) = _
    rw [octets, bytes?_eq_none h]
    rfl

/-- An item has the certificates or lacks them. -/
theorem exists_misshapen (x : Item) :
    (∃ shared leaf own more, x = .array (.bytes shared :: .array (.bytes leaf :: own) :: more)) ∨
      ∃ detail, Misshapen x detail := by
  by_cases hx : ∃ xs, x = .array xs
  · obtain ⟨xs, rfl⟩ := hx
    match xs with
    | [] => exact .inr ⟨_, .noShared⟩
    | x :: more =>
      by_cases hx : ∃ shared, x = .bytes shared
      · obtain ⟨shared, rfl⟩ := hx
        match more with
        | [] => exact .inr ⟨_, .noOwn⟩
        | y :: more =>
          by_cases hy : ∃ ys, y = .array ys
          · obtain ⟨ys, rfl⟩ := hy
            match ys with
            | [] => exact .inr ⟨_, .noLeaf⟩
            | z :: own =>
              by_cases hz : ∃ leaf, z = .bytes leaf
              · obtain ⟨leaf, rfl⟩ := hz
                exact .inl ⟨shared, leaf, own, more, rfl⟩
              · exact .inr ⟨_, .leafNotOctets (not_exists.1 hz)⟩
          · exact .inr ⟨_, .ownNotArray (not_exists.1 hy)⟩
      · exact .inr ⟨_, .sharedNotOctets (not_exists.1 hx)⟩
  · exact .inr ⟨_, .notArray (not_exists.1 hx)⟩

theorem certificates_eq_error_iff {x : Item} {e : ProvisioningError} :
    certificates x = .error e ↔ ∃ detail, e = .malformed detail ∧ Misshapen x detail := by
  constructor
  · intro h
    rcases exists_misshapen x with ⟨shared, leaf, own, more, rfl⟩ | ⟨detail, hx⟩
    · cases h
    · rw [certificates_eq_error hx] at h
      cases h
      exact ⟨detail, rfl, hx⟩
  · rintro ⟨detail, rfl, hx⟩
    exact certificates_eq_error hx

theorem ok_iff_holds {body cs : Octets} :
    (item ":signCertificates" body >>= certificates) = .ok cs ↔
    ∃ leaf shared, Holds body leaf shared ∧ cs = leaf ++ shared := by
  simp only [bind_eq_ok_iff, item_eq_ok_iff, certificates_eq_ok_iff]
  constructor
  · rintro ⟨_, hread, shared, leaf, own, more, rfl, rfl⟩
    exact ⟨leaf, shared, ⟨own, more, hread⟩, rfl⟩
  · rintro ⟨leaf, shared, ⟨own, more, hread⟩, rfl⟩
    exact ⟨_, hread, shared, leaf, own, more, rfl, rfl⟩

theorem error_iff_unusable {body : Octets} {e : ProvisioningError} :
    (item ":signCertificates" body >>= certificates) = .error e ↔
      ∃ detail, e = .malformed detail ∧ Unusable body detail := by
  constructor
  · intro h
    unfold item at h
    cases hread : Cbor.read body with
    | none =>
      rw [hread] at h
      cases h
      exact ⟨_, rfl, .unreadable hread⟩
    | some p =>
      obtain ⟨x, rest⟩ := p
      rw [hread] at h
      cases rest with
      | nil =>
        obtain ⟨detail, rfl, hx⟩ := certificates_eq_error_iff.1 h
        exact ⟨detail, rfl, .misshapen hread hx⟩
      | cons b rest =>
        cases h
        exact ⟨_, rfl, .trailing hread (List.cons_ne_nil _ _)⟩
  · rintro ⟨detail, rfl, h⟩
    unfold item
    cases h with
    | unreadable hread => rw [hread]; rfl
    | @trailing x rest hread hrest =>
      obtain ⟨b, rest, rfl⟩ := List.exists_cons_of_ne_nil hrest
      rw [hread]
      rfl
    | misshapen hread hx =>
      rw [hread]
      exact certificates_eq_error hx

/-- A body has the certificates, or something is wrong with it. -/
theorem exists_unusable_iff {body : Octets} :
    (∃ detail, Unusable body detail) ↔ ¬ ∃ leaf shared, Holds body leaf shared := by
  constructor
  · rintro ⟨detail, hdetail⟩ ⟨leaf, shared, hholds⟩
    have hok := ok_iff_holds.2 ⟨leaf, shared, hholds, rfl⟩
    cases (error_iff_unusable.2 ⟨detail, rfl, hdetail⟩).symm.trans hok
  · intro hnone
    cases h : item ":signCertificates" body >>= certificates with
    | ok cs =>
      obtain ⟨leaf, shared, hholds, -⟩ := ok_iff_holds.1 h
      exact absurd ⟨leaf, shared, hholds⟩ hnone
    | error e =>
      obtain ⟨detail, -, hdetail⟩ := error_iff_unusable.1 h
      exact ⟨detail, hdetail⟩

/-- No answer came, or one at status 200 breaks off while it is looked at. -/
def BreaksOff (outcome : HttpOutcome) (cause : String) : Prop :=
  outcome = .failed cause ∨
    ∃ body, outcome = .answered 200 body ∧ body.broken = some cause ∧ body.octets.length < maxAnswer

/-- The text that an error has of a body: all of it or nothing. -/
inductive IsErrorText (body : HttpBody) : String → Prop
  | whole (h : body.broken = none) (hlen : body.octets.length ≤ HttpOutcome.maxText) :
      IsErrorText body (Utf8.decodeLossy body.octets)
  | tooLong (hlen : HttpOutcome.maxText < body.octets.length) : IsErrorText body ""
  | broken (h : body.broken ≠ none) : IsErrorText body ""

theorem text_eq_ok_iff {status : Nat} {body : HttpBody} {text : String} :
    HttpOutcome.text status body = .ok text ↔ (HttpOutcome.delivered status body).broken = none ∧
      (HttpOutcome.delivered status body).octets.length ≤ HttpOutcome.maxText ∧
        text = Utf8.decodeLossy (HttpOutcome.delivered status body).octets := by
  unfold HttpOutcome.text
  generalize HttpOutcome.delivered status body = b
  rw [bind_eq_ok_iff]
  constructor
  · rintro ⟨octets, hoctets, h⟩
    obtain ⟨hseen, rfl⟩ := HttpBody.upTo_eq_ok_iff.1 hoctets
    split at h
    · cases h
    · next hshort =>
      cases h
      rw [List.length_take] at hshort
      have hlen : b.octets.length ≤ HttpOutcome.maxText := by omega
      rw [List.take_of_length_le (Nat.le_succ_of_le hlen)]
      exact ⟨hseen.resolve_right (by omega), hlen, rfl⟩
  · rintro ⟨hbroken, hlen, rfl⟩
    refine ⟨b.octets, HttpBody.upTo_eq_ok_iff.2 ⟨.inl hbroken, ?_⟩, if_neg (Nat.not_lt.2 hlen)⟩
    exact (List.take_of_length_le (Nat.le_succ_of_le hlen)).symm

theorem isErrorText_iff {status : Nat} {body : HttpBody} {text : String} :
    IsErrorText (HttpOutcome.delivered status body) text ↔
      (HttpOutcome.text status body).toOption.getD "" = text := by
  cases htext : HttpOutcome.text status body with
  | ok whole =>
    obtain ⟨hbroken, hlen, rfl⟩ := text_eq_ok_iff.1 htext
    constructor
    · intro h
      cases h with
      | whole _ _ => rfl
      | tooLong hlong => omega
      | broken h => exact absurd hbroken h
    · rintro rfl
      exact .whole hbroken hlen
  | error cause =>
    constructor
    · intro h
      cases h with
      | whole hbroken hlen => cases htext.symm.trans (text_eq_ok_iff.2 ⟨hbroken, hlen, rfl⟩)
      | tooLong _ => rfl
      | broken _ => rfl
    · rintro rfl
      by_cases hlen : (HttpOutcome.delivered status body).octets.length ≤ HttpOutcome.maxText
      · refine .broken fun hbroken => ?_
        cases htext.symm.trans (text_eq_ok_iff.2 ⟨hbroken, hlen, rfl⟩)
      · exact .tooLong (Nat.lt_of_not_le hlen)

/-- What an outcome comes to. -/
structure IsAnswer (c : ProvisioningClient) (outcome : HttpOutcome) (r : Shaped Octets) : Prop where
  network_iff : ∀ detail, r = .error (.network detail) ↔
    ∃ cause, BreaksOff outcome cause ∧
      detail = c.endpointAddress ":signCertificates" ++ ": " ++ cause
  notRegistered_iff : r = .error .notRegistered ↔ ∃ body, outcome = .answered 444 body
  server_iff : ∀ status text, r = .error (.server status text) ↔ status ≠ 200 ∧ status ≠ 444 ∧
    ∃ body, outcome = .answered status body ∧ IsErrorText (HttpOutcome.delivered status body) text
  ok_iff : ∀ cs, r = .ok cs ↔ ∃ body octets, outcome = .answered 200 body ∧
    body.upTo maxAnswer = .ok octets ∧ ∃ leaf shared, Holds octets leaf shared ∧ cs = leaf ++ shared
  malformed_iff : ∀ detail, r = .error (.malformed detail) ↔
    ∃ body octets, outcome = .answered 200 body ∧
    body.upTo maxAnswer = .ok octets ∧ Unusable octets detail
  whole : ∀ body : Octets, outcome = .answered 200 body → body.length ≤ maxAnswer →
    (∀ cs, r = .ok cs ↔ ∃ leaf shared, Holds body leaf shared ∧ cs = leaf ++ shared) ∧
      ((∃ detail, r = .error (.malformed detail)) ↔ ¬ ∃ leaf shared, Holds body leaf shared)
  not_device : ∀ detail, r ≠ .error (.device detail)
  retryable_iff : ∀ e, r = .error e → (e.isRetryable = true ↔ ∃ detail, e = .network detail)

section

variable (c : ProvisioningClient)

theorem isAnswer_failed (cause : String) : IsAnswer c (.failed cause)
    (.error (.network (c.endpointAddress ":signCertificates" ++ ": " ++ cause))) where
  network_iff detail := by simp [BreaksOff, eq_comm]
  notRegistered_iff := by simp
  server_iff := by simp
  ok_iff := by simp
  malformed_iff := by simp
  whole := by simp
  not_device := by simp
  retryable_iff := by simp [ProvisioningError.isRetryable]

theorem isAnswer_notRegistered (body : HttpBody) :
    IsAnswer c (.answered 444 body) (.error .notRegistered) where
  network_iff := by simp [BreaksOff]
  notRegistered_iff := by simp
  server_iff status text := by
    simp only [Except.error.injEq, reduceCtorEq, HttpOutcome.answered.injEq, false_iff]
    rintro ⟨-, hregistered, body, ⟨rfl, -⟩, -⟩
    exact hregistered rfl
  ok_iff := by simp
  malformed_iff := by simp
  whole := by simp
  not_device := by simp
  retryable_iff := by simp [ProvisioningError.isRetryable]

theorem isAnswer_server {status : Nat} (hstatus : status ≠ 200) (hregistered : status ≠ 444)
    (body : HttpBody) : IsAnswer c (.answered status body)
      (.error (.server status ((HttpOutcome.text status body).toOption.getD ""))) where
  network_iff := by simp [BreaksOff, hstatus]
  notRegistered_iff := by simp [hregistered]
  server_iff status' text := by
    simp only [Except.error.injEq, ProvisioningError.server.injEq, HttpOutcome.answered.injEq,
      ← isErrorText_iff]
    constructor
    · rintro ⟨rfl, htext⟩
      exact ⟨hstatus, hregistered, body, ⟨rfl, rfl⟩, htext⟩
    · rintro ⟨-, -, body, ⟨rfl, rfl⟩, htext⟩
      exact ⟨rfl, htext⟩
  ok_iff := by simp [hstatus]
  malformed_iff := by simp [hstatus]
  whole := by simp [hstatus]
  not_device := by simp
  retryable_iff := by simp [ProvisioningError.isRetryable]

theorem isAnswer_broken {body : HttpBody} {cause : String}
    (hbroken : body.upTo maxAnswer = .error cause) :
    IsAnswer c (.answered 200 body)
      (.error (.network (c.endpointAddress ":signCertificates" ++ ": " ++ cause))) where
  network_iff detail := by
    obtain ⟨hcause, hlen⟩ := HttpBody.upTo_eq_error_iff.1 hbroken
    simp [BreaksOff, hcause, hlen, eq_comm]
  notRegistered_iff := by simp
  server_iff status text := by
    simp only [Except.error.injEq, reduceCtorEq, HttpOutcome.answered.injEq, false_iff]
    rintro ⟨hstatus, -, body, ⟨rfl, -⟩, -⟩
    exact hstatus rfl
  ok_iff := by simp [hbroken]
  malformed_iff := by simp [hbroken]
  whole body' hbody := by
    cases hbody
    cases (HttpBody.upTo_whole maxAnswer body').symm.trans hbroken
  not_device := by simp
  retryable_iff := by simp [ProvisioningError.isRetryable]

theorem isAnswer_taken {body : HttpBody} {octets : Octets}
    (hoctets : body.upTo maxAnswer = .ok octets) :
    IsAnswer c (.answered 200 body) (item ":signCertificates" octets >>= certificates) where
  network_iff detail := by
    have hwhole : ∀ cause, ¬ BreaksOff (.answered 200 body) cause := by
      rintro cause (hfailed | ⟨_, ⟨⟩, hbroken, hlen⟩)
      · cases hfailed
      · cases hoctets.symm.trans (HttpBody.upTo_eq_error_iff.2 ⟨hbroken, hlen⟩)
    simp [error_iff_unusable, hwhole]
  notRegistered_iff := by simp [error_iff_unusable]
  server_iff status text := by
    simp only [error_iff_unusable, reduceCtorEq, false_and, exists_false,
      HttpOutcome.answered.injEq, false_iff]
    rintro ⟨hstatus, -, body, ⟨rfl, -⟩, -⟩
    exact hstatus rfl
  ok_iff cs := by simp [ok_iff_holds, hoctets]
  malformed_iff detail := by simp [error_iff_unusable, hoctets]
  whole body' hbody hlen := by
    cases hbody
    rw [HttpBody.upTo_whole, List.take_of_length_le hlen] at hoctets
    cases hoctets
    exact ⟨fun cs => ok_iff_holds, by simpa [error_iff_unusable] using exists_unusable_iff⟩
  not_device := by simp [error_iff_unusable]
  retryable_iff e he := by
    obtain ⟨detail, rfl, -⟩ := error_iff_unusable.1 he
    simp [ProvisioningError.isRetryable]

/-- Every outcome is told apart. -/
theorem received_isAnswer (outcome : HttpOutcome) :
    IsAnswer c outcome (c.received ":signCertificates" outcome >>= certificates) := by
  cases outcome with
  | failed cause => exact c.isAnswer_failed cause
  | answered status body =>
    by_cases hstatus : status = 200
    · subst hstatus
      rw [received, if_pos rfl]
      cases hupTo : body.upTo maxAnswer with
      | error cause => exact c.isAnswer_broken hupTo
      | ok octets => exact c.isAnswer_taken hupTo
    by_cases hregistered : status = 444
    · subst hregistered
      exact c.isAnswer_notRegistered body
    · have hreceived : c.received ":signCertificates" (.answered status body) =
          .error (.server status ((HttpOutcome.text status body).toOption.getD "")) := by
        simp only [received, if_neg hstatus, if_neg hregistered]
      rw [hreceived]
      exact c.isAnswer_server hstatus hregistered body

end

theorem converse_post {α : Type} (c : ProvisioningClient) (endpoint : String)
    (parameters : List (String × String)) (body : Octets) (f : Item → Shaped α) (p : Partner)
    (past : List Exchange) :
    let request := c.request endpoint parameters body
    Session.converse p (c.post endpoint parameters body >>= fun x => Session.known (f x)) past =
      (c.received endpoint (p past (.server request)) >>= f,
        past ++ [⟨.server request, p past (.server request)⟩]) := by
  intro request
  unfold post
  rw [bind_assoc, Session.converse_bind_ok (Session.converse_server p _ past)]
  cases c.received endpoint (p past (.server request)) <;> rfl

/-- A request for certificates is one exchange, and its result tells what the outcome of that
was. -/
theorem sign_isAnswer (c : ProvisioningClient) (csr challenge : Octets) (p : Partner)
    (past : List Exchange) :
    ∃ request : HttpRequest,
      (∃ parameter, c.IsPost ":signCertificates" [("challenge", parameter)] csr request ∧
        Base64.decode? .urlSafe parameter = some challenge) ∧
      (Session.converse p (c.sign csr challenge) past).2 = past ++
        [⟨.server request, p past (.server request)⟩] ∧
      IsAnswer c (p past (.server request)) (Session.converse p (c.sign csr challenge) past).1 := by
  refine ⟨_, ⟨_, c.isPost_request _ _ _, Base64.decode?_encode _ _⟩, ?_, ?_⟩
  · exact congrArg Prod.snd (c.converse_post _ _ _ certificates p past)
  · have hresult := congrArg Prod.fst (c.converse_post ":signCertificates"
      [("challenge", Base64.encode .urlSafe challenge)] csr certificates p past)
    exact hresult ▸ c.received_isAnswer _

end AttestedKey.ProvisioningClient

/-! An error with one octet more than a text may have. -/

namespace AttestedKey.LongError

open Provisioning

def client : ProvisioningClient := ⟨"https://example.com", "acme/1", "1"⟩

def body : Octets := List.replicate (HttpOutcome.maxText + 1) 0

def text : String := String.ofList (List.replicate (HttpOutcome.maxText + 1) '\x00')

def partner : Partner := fun _ q =>
  match q with
  | .device _ => .error (.device "not supported")
  | .server _ => .answered 500 body

theorem decodeLossy_body : Utf8.decodeLossy body = text := by
  have hencode : Utf8.encode text = body := by
    rw [Utf8.encode, text, String.toList_ofList, List.flatMap_replicate]
    simp [body, Utf8.encodeChar]
  rw [← hencode, Utf8.decodeLossy_encode]

theorem text_ne_empty : text ≠ "" := by
  intro h
  have hlength := congrArg (fun s : String => s.toList.length) h
  simp [text] at hlength

/-- The error is that of a server that says nothing. -/
theorem sign_longError : Utf8.decodeLossy body = text ∧ text ≠ "" ∧ ∀ csr challenge,
    (Session.converse partner (client.sign csr challenge) []).1 = .error (.server 500 "") := by
  refine ⟨decodeLossy_body, text_ne_empty, fun csr challenge => ?_⟩
  refine (congrArg Prod.fst
    (client.converse_post _ _ _ ProvisioningClient.certificates partner [])).trans ?_
  refine ((client.received_isAnswer (.answered 500 body)).server_iff 500 "").2
    ⟨by decide, by decide, body, rfl, .tooLong ?_⟩
  change _ < body.length
  rw [body, List.length_replicate]
  exact Nat.lt_succ_self _

end AttestedKey.LongError
