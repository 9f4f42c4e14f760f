import SourceHistory.Error

namespace SourceHistory

/-- The state that an update reached, and the error that stopped it there, if any. The caller may go
on with the state either way. -/
structure Attempt (σ : Type) where
  state : σ
  error? : Option Error

namespace Attempt

variable {σ τ : Type}

def done (state : σ) : Attempt σ := ⟨state, none⟩

def failed (state : σ) (error : Error) : Attempt σ := ⟨state, some error⟩

def succeeded (a : Attempt σ) : Bool := a.error?.isNone

def toExcept (a : Attempt σ) : Except Error σ :=
  match a.error? with
  | none => .ok a.state
  | some error => .error error

end Attempt

end SourceHistory
