/-!
# Operations in place

An operation in place finds a state, changes it step by step and may stop on the way. Nothing is
rolled back: what it has changed until then stays changed. `EStateM ε σ α` is such an operation on
a state `σ` with the reasons `ε` to stop, since its `Result.error` holds the state that was left
besides the reason.

* `inspect` looks at the state and cannot change it.
* `within` is an operation on a part of a larger state, and puts back whatever it leaves.
* `allOrNothing` is how an operation ends that has no effect unless it completes. Which of them do
  so has to be shown for each; `run_within` carries it from a part to the whole.
-/

namespace Chip8.InPlace

variable {ε σ τ α : Type}

/-- A look at the state, which may find a reason to stop. -/
def inspect (look : σ → Except ε α) : EStateM ε σ α := do
  match look (← get) with
  | .ok a => return a
  | .error e => throw e

/-- An operation on a part of the state. The part is put back as it has been left, also where the
operation has stopped. -/
def within (part : σ → τ) (put : σ → τ → σ) (act : EStateM ε τ α) : EStateM ε σ α := fun s =>
  match act.run (part s) with
  | .ok a t => .ok a (put s t)
  | .error e t => .error e (put s t)

/-- The end of an operation from the state `s` that has no effect unless it completes. -/
def allOrNothing (s : σ) : Except ε (α × σ) → EStateM.Result ε σ α
  | .ok (a, t) => .ok a t
  | .error e => .error e s

variable {s : σ}

/-- A look leaves the state as it is, whether it finds something or a reason to stop. -/
theorem run_inspect (look : σ → Except ε α) :
    (inspect look).run s = allOrNothing s ((look s).map (·, s)) := by
  simp only [inspect, EStateM.run_bind, EStateM.run_get]
  cases look s with
  | ok a => rfl
  | error e => rfl

/-- An operation that has no effect on a part unless it completes has none on the whole. -/
theorem run_within {part : σ → τ} {put : σ → τ → σ} {act : EStateM ε τ α}
    {result : Except ε (α × τ)} (hput : put s (part s) = s)
    (h : act.run (part s) = allOrNothing (part s) result) :
    (within part put act).run s = allOrNothing s (result.map fun r => (r.1, put s r.2)) := by
  rw [EStateM.run, within, h]
  cases result with
  | ok r => rfl
  | error e => exact congrArg (EStateM.Result.error e) hput

end Chip8.InPlace
