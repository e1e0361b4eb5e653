import Chip8.Proofs.Safety
import Chip8.Run.Loop

/-!
# The ways in which a round goes

Equations for the parts of a run, one for each way in which they go.

* `Outcome.executes`: a cycle that executed an instruction to its end is one that counts.
* A cycle never breaches a bound (`cycle_ne_broken`), so `batch` has four ways to go: the limit
  comes first, or there is a cycle that counts, waits or fails.
* `Run.due`, `Run.advance` and `Run.ticks` name what `work` hands to `batch`: what the pacer finds due, and the
  run once the pacer has been told the time and the timers have ticked.
-/

namespace Chip8

/-- The cycle executed an instruction to its end. -/
def Outcome.executes : Outcome → Bool
  | .completed .ran | .completed .presented => true
  | _ => false

/-- What a run that cannot poll the keypad ends with. -/
def PollFailure.ending : PollFailure → Ending
  | refused e => .pollFailed e
  | broken d => .broken d

namespace Run

variable {δ σ : Type}

/-- The run as it begins. -/
def start (host : Host σ) (pacer : Pacer) (vm : Vm δ) (world : σ) : Run δ σ :=
  { vm, pacer, world, last := host.clock world }

/-- What the pacer finds due when a round reads the clock. -/
def due (host : Host σ) (r : Run δ σ) : Due :=
  (r.pacer.advance (host.clock r.world - r.last)).1

/-- The run once the pacer has been told the time. -/
def advance (host : Host σ) (r : Run δ σ) : Run δ σ :=
  { r with
    pacer := (r.pacer.advance (host.clock r.world - r.last)).2
    last := host.clock r.world }

/-- The run once the timers have ticked so often. -/
def ticks (n : Nat) (r : Run δ σ) : Run δ σ :=
  { r with vm := { r.vm with machine := r.vm.machine.ticks n } }

/-- The run once it has slept until something else falls due. -/
def sleep (host : Host σ) (r : Run δ σ) : Run δ σ :=
  { r with world := host.sleep r.pacer.untilNext r.world }

/-- One more instruction counts as executed. -/
def countOne (r : Run δ σ) : Run δ σ := { r with executed := r.executed + 1 }

variable {display : Display δ} {host : Host σ} {limit : Option Nat} {r s : Run δ σ}

/-! ## Cycles -/

/-- No cycle of a run breaches a bound. -/
theorem cycle_ne_broken (r : Run δ σ) (d : Defect) : (r.cycle display host).1 ≠ .broken d :=
  (Vm.safe r.vm).not_broken display (host.keys r.world) d

/-- A cycle does not count itself. -/
theorem executed_cycle (r : Run δ σ) : (r.cycle display host).2.executed = r.executed := rfl

/-- **A cycle counts, waits or fails.** -/
theorem cycle_cases (display : Display δ) (host : Host σ) (r : Run δ σ) :
    (r.cycle display host).1.executes = true ∨ (r.cycle display host).1 = .completed .waiting ∨
      ∃ e, (r.cycle display host).1 = .failed e := by
  cases hout : (r.cycle display host).1 with
  | completed status =>
    cases status with
    | ran => exact .inl rfl
    | presented => exact .inl rfl
    | waiting => exact .inr (.inl rfl)
  | failed e => exact .inr (.inr ⟨e, rfl⟩)
  | broken d => exact absurd hout (cycle_ne_broken r d)

/-! ## Batches -/

/-- A run is at its limit if it has executed that many. -/
theorem atLimit_eq_true_iff {executed : Nat} :
    atLimit limit executed = true ↔ ∃ most, limit = some most ∧ most ≤ executed := by
  cases limit <;> simp [atLimit]

/-- It is not if it has executed fewer, or has no limit. -/
theorem atLimit_eq_false_iff {executed : Nat} :
    atLimit limit executed = false ↔ ∀ most, limit = some most → executed < most := by
  cases limit <;> simp [atLimit]

/-- At the limit a batch ends the run before its next cycle. -/
theorem batch_of_atLimit (n : Nat) (h : atLimit limit r.executed = true) :
    batch display host limit (n + 1) r = (some (.limitReached r.executed), r) := by
  rw [batch, if_pos h]

section

variable (n : Nat) (hfree : atLimit limit r.executed = false)

include hfree

/-- After a cycle that executes, the batch goes on. -/
theorem batch_of_executes (h : (r.cycle display host).1.executes = true) :
    batch display host limit (n + 1) r =
      batch display host limit n (r.cycle display host).2.countOne := by
  rw [batch, hfree]
  cases hcycle : r.cycle display host with
  | mk outcome s =>
    rw [hcycle] at h
    cases outcome with
    | completed status =>
      cases status with
      | ran | presented => rfl
      | waiting => cases h
    | failed e => cases h
    | broken d => cases h

/-- After one that waits, the batch is over. -/
theorem batch_of_waits (h : (r.cycle display host).1 = .completed .waiting) :
    batch display host limit (n + 1) r = (none, (r.cycle display host).2) := by
  rw [batch, hfree]
  cases hcycle : r.cycle display host with
  | mk outcome s =>
    rw [hcycle] at h
    cases h
    rfl

/-- After one that fails, so is the run. -/
theorem batch_of_fails {e : Error} (h : (r.cycle display host).1 = .failed e) :
    batch display host limit (n + 1) r =
      (some (.cycleFailed e), (r.cycle display host).2) := by
  rw [batch, hfree]
  cases hcycle : r.cycle display host with
  | mk outcome s =>
    rw [hcycle] at h
    cases h
    rfl

end

/-! ## The work of a round -/

/-- The batch of a round. -/
def batchNow (display : Display δ) (host : Host σ) (limit : Option Nat) (r : Run δ σ) :
    Option Ending × Run δ σ :=
  batch display host limit (r.due host).cycles ((r.advance host).ticks (r.due host).ticks)

/-- A round that does not end the run sleeps at last. -/
theorem work_of_none (h : batchNow display host limit r = (none, s)) :
    work display host limit r = (none, s.sleep host) := by
  simp only [work]
  split
  · rename_i hbatch
    cases h.symm.trans hbatch
  · rename_i hbatch
    cases h.symm.trans hbatch
    rfl

/-- One that ends it does not. -/
theorem work_of_ending {ending : Ending} (h : batchNow display host limit r = (some ending, s)) :
    work display host limit r = (some ending, s) := by
  simp only [work]
  split
  · rename_i hbatch
    cases h.symm.trans hbatch
    rfl
  · rename_i hbatch
    cases h.symm.trans hbatch

/-! ## Rounds -/

/-- A round that is to halt does nothing else. -/
theorem round_of_halted (h : host.halted r.world = true) :
    round display host limit r = (some (.halted r.executed), r) := by
  rw [round, if_pos h]

/-- A poll that fails ends the run. -/
theorem round_of_unpolled {failure : PollFailure} {world : σ} (hgo : host.halted r.world = false)
    (h : host.poll r.world = (.error failure, world)) :
    round display host limit r = (some failure.ending, { r with world }) := by
  rw [round, hgo, h]
  cases failure with
  | refused e => rfl
  | broken d => rfl

/-- Otherwise the round works with what has been polled. -/
theorem round_of_polled {world : σ} (hgo : host.halted r.world = false)
    (h : host.poll r.world = (.ok (), world)) :
    round display host limit r = work display host limit { r with world } := by
  rw [round, hgo, h]
  rfl

end Run

end Chip8
