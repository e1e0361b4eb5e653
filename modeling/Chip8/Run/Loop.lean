import Chip8.Cycle
import Chip8.Pacing.Pacer

/-!
# Running

A run goes on until it is halted, until a limit of executed instructions is reached, or until
something fails. It works in rounds. A round first looks whether it is to halt, then polls the
keypad, reads the clock, lets the timers tick and executes the cycles that are due, and sleeps
until something else falls due.

* `Host σ` is the world around a run, with states `σ`: halt flag, keypad, clock and sleep, and
  an observer of the cycles. A run asks nothing else of the world.
* `Run.batch` executes the due cycles of one round. The limit is looked at before each; a cycle
  that waits for a key ends the batch and does not count as executed.
* `Run.round` is one round and `Run.rounds` up to a number of them; `run` starts a run.
* `Ending` says why a run ended, and what it logs at last.
-/

namespace Chip8

/-- Why the keypad could not be polled. -/
inductive PollFailure where
  /-- It refused. -/
  | refused (e : IoError)
  /-- What it took in breached a bound. -/
  | broken (d : Defect)
  deriving DecidableEq

/-- The world around a run. -/
structure Host (σ : Type) where
  /-- The run is to halt. -/
  halted : σ → Bool
  /-- The keypad takes in what has been typed. -/
  poll : σ → Except PollFailure Unit × σ
  /-- The time, in nanoseconds. -/
  clock : σ → Nat
  /-- The keys that are down. -/
  keys : σ → KeySet
  /-- A cycle has been executed. -/
  observe : Report → σ → σ
  /-- Some time passes, in nanoseconds. -/
  sleep : Nat → σ → σ

/-- Why a run ended. -/
inductive Ending where
  /-- It executed as many instructions as it was allowed to. -/
  | limitReached (executed : Nat)
  /-- It was halted after some instructions. -/
  | halted (executed : Nat)
  /-- The keypad failed. -/
  | pollFailed (e : IoError)
  /-- A cycle failed. -/
  | cycleFailed (e : Error)
  /-- A cycle or a poll breached a bound. -/
  | broken (d : Defect)
  deriving DecidableEq

namespace Ending

/-- What the end of a run logs. A failure of the keypad is left to the caller to tell. -/
def log : Ending → List Message
  | limitReached executed => [.stopping executed]
  | halted executed => [.halted executed]
  | cycleFailed e => [.failed e]
  | pollFailed _ | broken _ => []

/-- The number of instructions that a run executed, if it came to a regular end. -/
def executed? : Ending → Option Nat
  | limitReached executed | halted executed => some executed
  | _ => none

/-- The error that a run ended with. -/
def error? : Ending → Option Error
  | pollFailed e => some (.io e)
  | cycleFailed e => some e
  | _ => none

end Ending

/-- A run in progress. -/
structure Run (δ σ : Type) where
  /-- The machine and its display. -/
  vm : Vm δ
  /-- The pacer. -/
  pacer : Pacer
  /-- The world. -/
  world : σ
  /-- The time up to which the pacer has been advanced. -/
  last : Nat
  /-- Instructions executed so far. -/
  executed : Nat := 0

namespace Run

variable {δ σ : Type}

/-- The limit allows no further instruction. -/
def atLimit (limit : Option Nat) (executed : Nat) : Bool := limit.any (· ≤ executed)

/-- One cycle, seen by the world. -/
def cycle (display : Display δ) (host : Host σ) (r : Run δ σ) : Outcome × Run δ σ :=
  let (report, vm) := r.vm.cycle display (host.keys r.world)
  (report.outcome, { r with vm, world := host.observe report r.world })

/-- Up to `n` cycles: fewer if the run ends or a cycle waits for a key. -/
def batch (display : Display δ) (host : Host σ) (limit : Option Nat) :
    Nat → Run δ σ → Option Ending × Run δ σ
  | 0, r => (none, r)
  | n + 1, r =>
    if atLimit limit r.executed then (some (.limitReached r.executed), r)
    else
      match r.cycle display host with
      | (.completed .waiting, r) => (none, r)
      | (.completed _, r) => batch display host limit n { r with executed := r.executed + 1 }
      | (.failed e, r) => (some (.cycleFailed e), r)
      | (.broken d, r) => (some (.broken d), r)

/-- The work of a round once the keypad has been polled. -/
def work (display : Display δ) (host : Host σ) (limit : Option Nat) (r : Run δ σ) :
    Option Ending × Run δ σ :=
  let now := host.clock r.world
  let (due, pacer) := r.pacer.advance (now - r.last)
  let vm := { r.vm with machine := r.vm.machine.ticks due.ticks }
  match batch display host limit due.cycles { r with vm, pacer, last := now } with
  | (some ending, r) => (some ending, r)
  | (none, r) => (none, { r with world := host.sleep r.pacer.untilNext r.world })

/-- One round. -/
def round (display : Display δ) (host : Host σ) (limit : Option Nat) (r : Run δ σ) :
    Option Ending × Run δ σ :=
  if host.halted r.world then (some (.halted r.executed), r)
  else
    match host.poll r.world with
    | (.error (.refused e), world) => (some (.pollFailed e), { r with world })
    | (.error (.broken d), world) => (some (.broken d), { r with world })
    | (.ok (), world) => work display host limit { r with world }

/-- Up to `n` rounds; no ending if the run goes on after them. -/
def rounds (display : Display δ) (host : Host σ) (limit : Option Nat) :
    Nat → Run δ σ → Option Ending × Run δ σ
  | 0, r => (none, r)
  | n + 1, r =>
    match round display host limit r with
    | (some ending, r) => (some ending, r)
    | (none, r) => rounds display host limit n r

end Run

/-- A run of at most `budget` rounds, from now on. -/
def run {δ σ : Type} (display : Display δ) (host : Host σ) (limit : Option Nat) (budget : Nat)
    (pacer : Pacer) (vm : Vm δ) (world : σ) : Option Ending × Run δ σ :=
  Run.rounds display host limit budget { vm, pacer, world, last := host.clock world }

end Chip8
