import SourceHistory.Git.Session

namespace SourceHistory.Git.Session

variable {α β : Type} {P : List String → Prop}

/-- Whatever git replies, every command of the conversation satisfies `P`. -/
def Asks (P : List String → Prop) : Session α → Prop
  | done _ => True
  | run args next => P args ∧ ∀ reply, (next reply).Asks P

theorem Asks.of_mem_commands {s : Session α} (h : s.Asks P) {replies : List Reply}
    {args : List String} (ha : args ∈ s.commands replies) : P args := by
  induction s generalizing replies with
  | done result => cases replies <;> cases ha
  | run first next ih =>
    cases replies with
    | nil =>
      rw [commands, List.mem_singleton] at ha
      exact ha ▸ h.1
    | cons reply replies =>
      rcases List.mem_cons.1 ha with rfl | ha
      · exact h.1
      · exact ih reply (h.2 reply) ha

theorem Asks.bind {s : Session α} {f : α → Session β} (h : s.Asks P) (hf : ∀ a, (f a).Asks P) :
    (s >>= f).Asks P := by
  induction s with
  | done result =>
    cases result with
    | ok value => exact hf value
    | error error => trivial
  | run args next ih => exact ⟨h.1, fun reply => ih reply (h.2 reply)⟩

theorem asks_pure (a : α) : (pure a : Session α).Asks P := trivial

theorem asks_fail (e : VcsError) : (fail e : Session α).Asks P := trivial

theorem asks_ofExcept (result : Except VcsError α) : (ofExcept result).Asks P := trivial

theorem commands_fail (replies : List Reply) (e : VcsError) :
    (fail e : Session α).commands replies = [] := by
  cases replies <;> rfl

end SourceHistory.Git.Session
