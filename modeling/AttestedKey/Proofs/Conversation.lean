import AttestedKey.Provisioning.Device

/-! Dialogues with partners that remember. A partner answers a question in view of all that has
been said, which is as much as a device or a server can go by; `Dialogue.converse` keeps what is
said. What a dialogue can come to, whoever answers, is `Dialogue.Runs`, and every conversation is
such a run (`runs_converse`). The lemmas on sessions take a run apart at the steps of a session, of
which the first that fails is the last. -/

namespace AttestedKey

namespace Dialogue

variable {Question : Type} {Answer : Question → Type} {α β : Type}

structure Exchange (Answer : Question → Type) where
  question : Question
  answer : Answer question

abbrev Partner (Answer : Question → Type) := List (Exchange Answer) → (q : Question) → Answer q

def noted (p : Partner Answer) (q : Question) : StateM (List (Exchange Answer)) (Answer q) :=
  fun past => (p past q, past ++ [⟨q, p past q⟩])

/-- The result of a dialogue, and all that has been said when it ends. -/
def converse (p : Partner Answer) (d : Dialogue Answer α) (past : List (Exchange Answer)) :
    α × List (Exchange Answer) :=
  d.run (noted p) past

theorem converse_done (p : Partner Answer) (x : α) (past : List (Exchange Answer)) :
    converse p (.done x) past = (x, past) := rfl

theorem converse_ask (p : Partner Answer) (q : Question) (next : Answer q → Dialogue Answer α)
    (past : List (Exchange Answer)) :
    converse p (.ask q next) past = converse p (next (p past q)) (past ++ [⟨q, p past q⟩]) := rfl

theorem converse_bind (p : Partner Answer) (d : Dialogue Answer α) (f : α → Dialogue Answer β)
    (past : List (Exchange Answer)) :
    converse p (d >>= f) past = converse p (f (converse p d past).1) (converse p d past).2 := by
  induction d generalizing past with
  | done x => rfl
  | ask q next ih => exact ih (p past q) _

/-- With these answers the dialogue comes to this result. -/
inductive Runs : Dialogue Answer α → List (Exchange Answer) → α → Prop
  | done (x : α) : Runs (.done x) [] x
  | ask {q : Question} {next : Answer q → Dialogue Answer α} {said : List (Exchange Answer)}
      {x : α} (a : Answer q) :
      Runs (next a) said x → Runs (.ask q next) (⟨q, a⟩ :: said) x

theorem runs_converse (p : Partner Answer) (d : Dialogue Answer α) (past : List (Exchange Answer)) :
    ∃ said, (converse p d past).2 = past ++ said ∧ Runs d said (converse p d past).1 := by
  induction d generalizing past with
  | done x => exact ⟨[], by simp [converse_done], .done x⟩
  | ask q next ih =>
    obtain ⟨said, hsaid, hruns⟩ := ih (p past q) (past ++ [⟨q, p past q⟩])
    refine ⟨⟨q, p past q⟩ :: said, ?_, .ask _ hruns⟩
    rw [converse_ask, hsaid, List.append_assoc, List.singleton_append]

/-- Every answer in a record is the partner's, in view of what was said before. -/
theorem answer_of_converse {p : Partner Answer} {d : Dialogue Answer α}
    {past said front back : List (Exchange Answer)} {x : Exchange Answer}
    (h : (converse p d past).2 = past ++ said) (hsaid : said = front ++ x :: back) :
    x.answer = p (past ++ front) x.question := by
  induction d generalizing past said front with
  | done y =>
    rw [converse_done, hsaid] at h
    simp at h
  | ask q next ih =>
    obtain ⟨later, hlater, -⟩ := runs_converse p (next (p past q)) (past ++ [⟨q, p past q⟩])
    rw [converse_ask, hlater, hsaid, List.append_assoc, List.append_cancel_left_eq,
      List.singleton_append] at h
    cases front with
    | nil =>
      obtain ⟨rfl, rfl⟩ := List.cons.inj h
      rw [List.append_nil]
    | cons y front =>
      obtain ⟨rfl, hback⟩ := List.cons.inj h
      rw [ih _ hlater hback, List.append_assoc, List.singleton_append]

theorem runs_bind_iff {d : Dialogue Answer α} {f : α → Dialogue Answer β}
    {said : List (Exchange Answer)} {y : β} :
    Runs (d >>= f) said y ↔
      ∃ x front back, said = front ++ back ∧ Runs d front x ∧ Runs (f x) back y := by
  induction d generalizing said with
  | done x =>
    constructor
    · intro h
      exact ⟨x, [], said, rfl, .done x, h⟩
    · rintro ⟨x', front, back, rfl, hfront, hback⟩
      cases hfront
      exact hback
  | ask q next ih =>
    constructor
    · intro h
      cases h with
      | ask a h =>
        obtain ⟨x, front, back, rfl, hfront, hback⟩ := (ih a).1 h
        exact ⟨x, ⟨q, a⟩ :: front, back, rfl, .ask a hfront, hback⟩
    · rintro ⟨x, front, back, rfl, hfront, hback⟩
      cases hfront with
      | ask a hfront => exact .ask a ((ih a).2 ⟨x, _, back, rfl, hfront, hback⟩)

/-- Of steps that may fail the first that does is the last. -/
theorem runs_bind_run_iff {ε : Type} {s : ExceptT ε (Dialogue Answer) α}
    {f : α → ExceptT ε (Dialogue Answer) β} {said : List (Exchange Answer)} {r : Except ε β} :
    Runs (s >>= f).run said r ↔ (∃ e, Runs s.run said (.error e) ∧ r = .error e) ∨
      ∃ x front back, said = front ++ back ∧ Runs s.run front (.ok x) ∧ Runs (f x).run back r := by
  rw [ExceptT.run_bind, runs_bind_iff]
  constructor
  · rintro ⟨x | x, front, back, rfl, hfront, hback⟩
    · cases hback
      exact Or.inl ⟨x, by rwa [List.append_nil], rfl⟩
    · exact Or.inr ⟨x, front, back, rfl, hfront, hback⟩
  · rintro (⟨e, h, rfl⟩ | ⟨x, front, back, rfl, hfront, hback⟩)
    · exact ⟨.error e, said, [], by rw [List.append_nil], h, .done _⟩
    · exact ⟨.ok x, front, back, rfl, hfront, hback⟩

end Dialogue

namespace Provisioning

open Dialogue

abbrev Exchange := Dialogue.Exchange Question.Answer

abbrev Partner := Dialogue.Partner Question.Answer

def Exchange.IsDevice (x : Exchange) : Prop := ∃ call, x.question = .device call

namespace Session

variable {α β : Type}

def Runs (s : Session α) (said : List Exchange) (r : Shaped α) : Prop := Dialogue.Runs s.run said r

theorem runs_bind_iff {s : Session α} {f : α → Session β} {said : List Exchange} {r : Shaped β} :
    Runs (s >>= f) said r ↔ (∃ e, Runs s said (.error e) ∧ r = .error e) ∨
      ∃ x front back, said = front ++ back ∧ Runs s front (.ok x) ∧ Runs (f x) back r :=
  Dialogue.runs_bind_run_iff

theorem runs_known_iff {x r : Shaped α} {said : List Exchange} :
    Runs (known x) said r ↔ said = [] ∧ r = x := by
  constructor
  · intro h
    cases h
    exact ⟨rfl, rfl⟩
  · rintro ⟨rfl, rfl⟩
    exact .done _

theorem runs_device_iff {call : DeviceCall} {r : Shaped call.Value} {said : List Exchange} :
    Runs (device call) said r ↔ said = [⟨.device call, r⟩] := by
  constructor
  · intro h
    cases h with
    | ask a h =>
      cases h
      rfl
  · rintro rfl
    exact Dialogue.Runs.ask (show (Question.device call).Answer from r) (.done _)

theorem runs_server_iff {request : HttpRequest} {r : Shaped HttpOutcome} {said : List Exchange} :
    Runs (server request) said r ↔
      ∃ outcome : HttpOutcome, said = [⟨.server request, outcome⟩] ∧ r = .ok outcome := by
  constructor
  · intro h
    cases h with
    | ask a h =>
      cases h
      exact ⟨a, rfl, rfl⟩
  · rintro ⟨a, rfl, rfl⟩
    exact Dialogue.Runs.ask (show (Question.server request).Answer from a) (.done _)

def converse (p : Partner) (s : Session α) (past : List Exchange) : Shaped α × List Exchange :=
  Dialogue.converse p s.run past

theorem runs_converse (p : Partner) (s : Session α) (past : List Exchange) :
    ∃ said, (converse p s past).2 = past ++ said ∧ Runs s said (converse p s past).1 :=
  Dialogue.runs_converse p s.run past

theorem converse_bind_ok {p : Partner} {s : Session α} {past said : List Exchange} {x : α}
    (h : converse p s past = (.ok x, said)) (f : α → Session β) :
    converse p (s >>= f) past = converse p (f x) said := by
  unfold converse at h ⊢
  rw [ExceptT.run_bind, Dialogue.converse_bind, h]

theorem converse_bind_error {p : Partner} {s : Session α} {past said : List Exchange}
    {e : ProvisioningError} (h : converse p s past = (.error e, said)) (f : α → Session β) :
    converse p (s >>= f) past = (.error e, said) := by
  unfold converse at h ⊢
  rw [ExceptT.run_bind, Dialogue.converse_bind, h]
  rfl

theorem converse_server (p : Partner) (request : HttpRequest) (past : List Exchange) :
    converse p (server request) past =
      (.ok (p past (.server request)), past ++ [⟨.server request, p past (.server request)⟩]) :=
  rfl

theorem converse_device_ok {p : Partner} {call : DeviceCall} {past : List Exchange} {x : call.Value}
    (h : p past (.device call) = .ok x) :
    converse p (device call) past = (.ok x, past ++ [⟨.device call, .ok x⟩]) := by
  have hconverse : converse p (device call) past =
      (p past (.device call), past ++ [⟨.device call, p past (.device call)⟩]) := rfl
  rw [hconverse, h]

def AsksDevice (s : Session α) : Prop := ∀ said r, Runs s said r → ∀ x ∈ said, x.IsDevice

theorem AsksDevice.bind {s : Session α} {f : α → Session β} (hs : AsksDevice s)
    (hf : ∀ x, AsksDevice (f x)) : AsksDevice (s >>= f) := by
  intro said r h x hx
  rcases runs_bind_iff.1 h with ⟨e, h, -⟩ | ⟨y, front, back, rfl, hfront, hback⟩
  · exact hs _ _ h x hx
  · rcases List.mem_append.1 hx with hx | hx
    · exact hs _ _ hfront x hx
    · exact hf y _ _ hback x hx

theorem asksDevice_device (call : DeviceCall) : AsksDevice (device call) := by
  intro said r h x hx
  obtain rfl := runs_device_iff.1 h
  exact ⟨call, by rw [List.mem_singleton.1 hx]⟩

theorem asksDevice_known (x : Shaped α) : AsksDevice (known x) := by
  intro said r h y hy
  obtain ⟨rfl, -⟩ := runs_known_iff.1 h
  cases hy

end Session

end Provisioning

end AttestedKey
