import AttestedKey.Proofs.Conversation
import AttestedKey.Proofs.Query
import AttestedKey.Proofs.ShapedItems
import AttestedKey.Provisioning.Client

/-! What a provisioning session says and what it comes to, with every device and every server.
`IsSession` lists the sessions by where they end: after the first answer, after the device, or
after the second answer. Each has one or two requests, and none goes on after a step that failed. -/

namespace AttestedKey

open Cbor (Item)

namespace ProvisioningClient

open Provisioning

/-- A request to an endpoint of the client's server, of which nothing but the identifier of the
client follows the parameters. -/
structure IsPost (c : ProvisioningClient) (endpoint : String) (parameters : List (String × String))
    (body : Octets) (request : HttpRequest) : Prop where
  method : request.method = "POST"
  url : ∃ query, request.url = trimmed c.address ++ "/" ++ endpoint ++
      (if (trimmed c.address ++ "/" ++ endpoint).contains '?' then "&" else "?") ++ query ∧
    Query.read query = parameters ++ [("requestId", c.requestId)]
  body : request.body = body

/-- The question for endpoint keys, and what comes of an answer to it: keys, if it is one data item
at status 200 that has them. -/
structure Fetches (c : ProvisioningClient) (request : HttpRequest) (outcome : HttpOutcome)
    (r : Shaped EndpointKeys) : Prop where
  request : c.IsPost ":fetchEekChain" [] c.endpointKeysBody request
  result : r = c.received ":fetchEekChain" outcome >>= fun answer =>
    EndpointKeys.decode (Cbor.write answer)
  keys_iff : ∀ keys, r = .ok keys ↔ ∃ body octets answer, outcome = .answered 200 body ∧
    body.upTo maxAnswer = .ok octets ∧ Cbor.read octets = some (answer, []) ∧
      EndpointKeys.decode (Cbor.write answer) = .ok keys

/-- The request for certificates, which carries the challenge, and what comes of an answer to it:
the leaf and the certificates that all share, if it is one data item at status 200 that has them. -/
structure Signs (c : ProvisioningClient) (csr challenge : Octets) (request : HttpRequest)
    (outcome : HttpOutcome) (r : Shaped Octets) : Prop where
  request : ∃ parameter, c.IsPost ":signCertificates" [("challenge", parameter)] csr request ∧
    Base64.decode? .urlSafe parameter = some challenge
  result : r = c.received ":signCertificates" outcome >>= certificates
  certificates_iff : ∀ cs, r = .ok cs ↔
    ∃ body octets shared leaf more rest, outcome = .answered 200 body ∧
    body.upTo maxAnswer = .ok octets ∧
      Cbor.read octets = some (.array (.bytes shared :: .array (.bytes leaf :: more) :: rest), []) ∧
        cs = leaf ++ shared

structure Asks (c : ProvisioningClient) (keys : EndpointKeys) (said : List Exchange)
    (r : Shaped CertificateRequest) : Prop where
  runs : Session.Runs (c.generateRequest keys) said r
  device : ∀ x ∈ said, x.IsDevice

/-- A session by what is said in it, and what it comes to. -/
inductive IsSession (c : ProvisioningClient) : List Exchange → Shaped Provisioned → Prop
  | unfetched {request : HttpRequest} {outcome : HttpOutcome} {e : ProvisioningError} :
      c.Fetches request outcome (.error e) → IsSession c [⟨.server request, outcome⟩] (.error e)
  | unmade {request : HttpRequest} {outcome : HttpOutcome} {keys : EndpointKeys}
      {said : List Exchange}
      {e : ProvisioningError} :
      c.Fetches request outcome (.ok keys) → c.Asks keys said (.error e) →
        IsSession c (⟨.server request, outcome⟩ :: said) (.error e)
  | unsigned {request request' : HttpRequest} {outcome outcome' : HttpOutcome} {keys : EndpointKeys}
      {said : List Exchange} {made : CertificateRequest} {e : ProvisioningError} :
      c.Fetches request outcome (.ok keys) → c.Asks keys said (.ok made) →
        c.Signs made.csr keys.challenge request' outcome' (.error e) →
        IsSession c (⟨.server request, outcome⟩ :: said ++ [⟨.server request', outcome'⟩])
          (.error e)
  | signed {request request' : HttpRequest} {outcome outcome' : HttpOutcome} {keys : EndpointKeys}
      {said : List Exchange} {made : CertificateRequest} {cs : Octets} :
      c.Fetches request outcome (.ok keys) → c.Asks keys said (.ok made) →
        c.Signs made.csr keys.challenge request' outcome' (.ok cs) →
        IsSession c (⟨.server request, outcome⟩ :: said ++ [⟨.server request', outcome'⟩])
          (.ok ⟨cs, made.deviceInfo⟩)

variable (c : ProvisioningClient)

theorem isPost_request (endpoint : String) (parameters : List (String × String)) (body : Octets) :
    c.IsPost endpoint parameters body (c.request endpoint parameters body) where
  method := rfl
  url := by
    refine ⟨Query.ofParameters (parameters ++ [("requestId", c.requestId)]), ?_,
      Query.read_ofParameters _⟩
    rw [Query.url_eq (by simp [request])]
    rfl
  body := rfl

theorem received_eq_ok_iff {endpoint : String} {outcome : HttpOutcome} {x : Item} :
    c.received endpoint outcome = .ok x ↔ ∃ body octets, outcome = .answered 200 body ∧
      body.upTo maxAnswer = .ok octets ∧ Cbor.read octets = some (x, []) := by
  cases outcome with
  | failed cause => simp [received]
  | answered status body =>
    by_cases hstatus : status = 200
    · cases hupTo : body.upTo maxAnswer <;> simp [received, hstatus, hupTo, item_eq_ok_iff]
    · by_cases hregistered : status = 444 <;> simp [received, hstatus, hregistered]

theorem certificates_eq_ok_iff {answer : Item} {cs : Octets} :
    certificates answer = .ok cs ↔ ∃ shared leaf more rest,
      answer = .array (.bytes shared :: .array (.bytes leaf :: more) :: rest) ∧
        cs = leaf ++ shared := by
  unfold certificates
  simp only [bind_eq_ok_iff, array_eq_ok_iff, octets_eq_ok_iff, nth_eq_ok_iff]
  constructor
  · rintro ⟨parts, rfl, _, hshared, shared, rfl, _, hown, own, rfl, _, hleaf, leaf, rfl, h⟩
    cases h
    match parts, own with
    | x :: y :: rest, z :: more =>
      cases hshared
      cases hown
      cases hleaf
      exact ⟨shared, leaf, more, rest, rfl, rfl⟩
  · rintro ⟨shared, leaf, more, rest, rfl, rfl⟩
    exact ⟨_, rfl, _, rfl, shared, rfl, _, rfl, _, rfl, _, rfl, leaf, rfl, rfl⟩

/-- A request, whose answer is all that is looked at. -/
theorem runs_post_iff {α : Type} {endpoint : String} {parameters : List (String × String)}
    {body : Octets} {f : Item → Shaped α} {said : List Exchange} {r : Shaped α} :
    Session.Runs (c.post endpoint parameters body >>= fun x => Session.known (f x)) said r ↔
      ∃ outcome : HttpOutcome, said = [⟨.server (c.request endpoint parameters body), outcome⟩] ∧
        r = c.received endpoint outcome >>= f := by
  have hpost : ∀ {said r}, Session.Runs (c.post endpoint parameters body) said r ↔
      ∃ outcome : HttpOutcome,
        said = [⟨.server (c.request endpoint parameters body), outcome⟩] ∧
          r = c.received endpoint outcome := by
    intro said r
    rw [post, Session.runs_bind_iff]
    constructor
    · rintro (⟨e, h, -⟩ | ⟨outcome, front, back, rfl, hfront, hback⟩)
      · obtain ⟨outcome, -, h⟩ := Session.runs_server_iff.1 h
        cases h
      · obtain ⟨outcome', rfl, h⟩ := Session.runs_server_iff.1 hfront
        obtain ⟨rfl, rfl⟩ := Session.runs_known_iff.1 hback
        cases h
        exact ⟨outcome, rfl, rfl⟩
    · rintro ⟨outcome, rfl, rfl⟩
      exact Or.inr ⟨outcome, _, [], rfl, Session.runs_server_iff.2 ⟨outcome, rfl, rfl⟩,
        Session.runs_known_iff.2 ⟨rfl, rfl⟩⟩
  rw [Session.runs_bind_iff]
  constructor
  · rintro (⟨e, hruns, rfl⟩ | ⟨x, front, back, rfl, hfront, hback⟩)
    · obtain ⟨outcome, rfl, hreceived⟩ := hpost.1 hruns
      exact ⟨outcome, rfl, by rw [← hreceived]; rfl⟩
    · obtain ⟨outcome, rfl, hreceived⟩ := hpost.1 hfront
      obtain ⟨rfl, rfl⟩ := Session.runs_known_iff.1 hback
      exact ⟨outcome, rfl, by rw [← hreceived]; rfl⟩
  · rintro ⟨outcome, rfl, rfl⟩
    cases h : c.received endpoint outcome with
    | error e => exact Or.inl ⟨e, hpost.2 ⟨outcome, rfl, h.symm⟩, rfl⟩
    | ok x =>
      exact Or.inr ⟨x, _, [], rfl, hpost.2 ⟨outcome, rfl, h.symm⟩,
        Session.runs_known_iff.2 ⟨rfl, rfl⟩⟩

theorem fetches_of_runs {said : List Exchange} {r : Shaped EndpointKeys}
    (h : Session.Runs c.fetchEndpointKeys said r) :
    ∃ (request : HttpRequest) (outcome : HttpOutcome),
      said = [⟨.server request, outcome⟩] ∧ c.Fetches request outcome r := by
  obtain ⟨outcome, rfl, rfl⟩ := c.runs_post_iff.1 h
  refine ⟨_, outcome, rfl, c.isPost_request _ _ _, rfl, ?_⟩
  intro keys
  simp only [bind_eq_ok_iff, received_eq_ok_iff]
  constructor
  · rintro ⟨answer, ⟨body, octets, rfl, hoctets, hanswer⟩, hkeys⟩
    exact ⟨body, octets, answer, rfl, hoctets, hanswer, hkeys⟩
  · rintro ⟨body, octets, answer, rfl, hoctets, hanswer, hkeys⟩
    exact ⟨answer, ⟨body, octets, rfl, hoctets, hanswer⟩, hkeys⟩

theorem signs_of_runs {csr challenge : Octets} {said : List Exchange} {r : Shaped Octets}
    (h : Session.Runs (c.sign csr challenge) said r) :
    ∃ (request : HttpRequest) (outcome : HttpOutcome),
      said = [⟨.server request, outcome⟩] ∧ c.Signs csr challenge request outcome r := by
  obtain ⟨outcome, rfl, rfl⟩ := c.runs_post_iff.1 h
  refine ⟨_, outcome, rfl, ⟨_, c.isPost_request _ _ _, Base64.decode?_encode _ _⟩, rfl, ?_⟩
  intro cs
  simp only [bind_eq_ok_iff, received_eq_ok_iff, certificates_eq_ok_iff]
  constructor
  · rintro ⟨answer, ⟨body, octets, rfl, hoctets, hanswer⟩, shared, leaf, more, rest, rfl, rfl⟩
    exact ⟨body, octets, shared, leaf, more, rest, rfl, hoctets, hanswer, rfl⟩
  · rintro ⟨body, octets, shared, leaf, more, rest, rfl, hoctets, hanswer, rfl⟩
    exact ⟨_, ⟨body, octets, rfl, hoctets, hanswer⟩, shared, leaf, more, rest, rfl, rfl⟩

theorem asksDevice_generateRequest (keys : EndpointKeys) : (c.generateRequest keys).AsksDevice := by
  unfold generateRequest
  refine .bind (Session.asksDevice_device _) fun hardware =>
    .bind (Session.asksDevice_device _) fun key => ?_
  split
  · split
    · exact Session.asksDevice_known (.error _)
    · exact .bind (Session.asksDevice_device _) fun parts => Session.asksDevice_known _
  · exact .bind (Session.asksDevice_device _) fun made => Session.asksDevice_known _

/-- Whoever answers, what is said and what comes of it make a session. -/
theorem provision_isSession (p : Partner) (past : List Exchange) :
    ∃ said, (Session.converse p c.provision past).2 = past ++ said ∧
      c.IsSession said (Session.converse p c.provision past).1 := by
  obtain ⟨said, hsaid, hruns⟩ := Session.runs_converse p c.provision past
  refine ⟨said, hsaid, ?_⟩
  generalize (Session.converse p c.provision past).1 = r at hruns
  unfold provision at hruns
  rcases Session.runs_bind_iff.1 hruns with ⟨e, h, rfl⟩ | ⟨keys, front, back, rfl, hfront, hback⟩
  · obtain ⟨request, outcome, rfl, hfetches⟩ := c.fetches_of_runs h
    exact .unfetched hfetches
  · obtain ⟨request, outcome, rfl, hfetches⟩ := c.fetches_of_runs hfront
    rcases Session.runs_bind_iff.1 hback with ⟨e, h, rfl⟩ | ⟨made, asked, rest, rfl, hasked, hrest⟩
    · exact .unmade hfetches ⟨h, c.asksDevice_generateRequest keys _ _ h⟩
    · have hasks : c.Asks keys asked (.ok made) :=
        ⟨hasked, c.asksDevice_generateRequest keys _ _ hasked⟩
      rcases Session.runs_bind_iff.1 hrest with ⟨e, h, rfl⟩ | ⟨cs, last, none, rfl, hlast, hnone⟩
      · obtain ⟨request', outcome', rfl, hsigns⟩ := c.signs_of_runs h
        exact .unsigned hfetches hasks hsigns
      · obtain ⟨request', outcome', rfl, hsigns⟩ := c.signs_of_runs hlast
        cases hnone
        exact .signed hfetches hasks hsigns

end ProvisioningClient

end AttestedKey
