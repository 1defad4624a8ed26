/-! Computations that put questions to a partner and go on with the answers. What a computation
asks, and in what order, is part of its value; who answers is decided when it is run. -/

namespace AttestedKey

inductive Dialogue {Question : Type} (Answer : Question → Type) (α : Type) where
  | done (result : α)
  | ask (question : Question) (next : Answer question → Dialogue Answer α)

namespace Dialogue

variable {Question : Type} {Answer : Question → Type} {α β γ : Type}

def bind : Dialogue Answer α → (α → Dialogue Answer β) → Dialogue Answer β
  | done x, f => f x
  | ask q next, f => ask q fun a => (next a).bind f

instance : Monad (Dialogue Answer) where
  pure := done
  bind := bind

@[simp] theorem bind_done (d : Dialogue Answer α) : d.bind done = d := by
  induction d with
  | done x => rfl
  | ask q next ih => simp [bind, ih]

theorem bind_assoc (d : Dialogue Answer α) (f : α → Dialogue Answer β) (g : β → Dialogue Answer γ) :
    (d.bind f).bind g = d.bind fun x => (f x).bind g := by
  induction d with
  | done x => rfl
  | ask q next ih => simp [bind, ih]

instance : LawfulMonad (Dialogue Answer) :=
  LawfulMonad.mk' _ (fun d => bind_done d) (fun _ _ => rfl) bind_assoc

def run {m : Type → Type} [Monad m] (partner : (q : Question) → m (Answer q)) :
    Dialogue Answer α → m α
  | done x => pure x
  | ask q next => do (next (← partner q)).run partner

end Dialogue

end AttestedKey
