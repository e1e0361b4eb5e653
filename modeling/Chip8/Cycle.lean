import Chip8.Display.Basic
import Chip8.Machine.InPlace
import Chip8.Message

/-!
# Cycles

A `Vm` is a machine with a display's state. One cycle fetches the instruction at the program
counter, executes it in place, moves the program counter, and shows the picture if it has changed
since the display last took it.

* A cycle whose instruction stops ends with the machine as the instruction has left it.
* A cycle that waits for a key ends before anything is shown.
* If the display refuses, the instruction has been executed all the same, and the picture stays
  due, so that the next cycle that completes shows it.

`Report` tells what happened: the outcome, what was logged and which keys were looked at.
-/

namespace Chip8

/-- A machine and the state of its display. -/
structure Vm (δ : Type) where
  machine : Machine
  screen : δ

/-- How a cycle completed. -/
inductive Status where
  /-- An instruction was executed and nothing had to be shown. -/
  | ran
  /-- An instruction was executed and the picture was shown. -/
  | presented
  /-- The instruction waits for a key; the program counter has not moved. -/
  | waiting
  deriving DecidableEq

/-- How a cycle ended. -/
inductive Outcome where
  /-- It completed. -/
  | completed (status : Status)
  /-- The program faulted or the display refused. -/
  | failed (e : Error)
  /-- A bound of the machine was breached. -/
  | broken (d : Defect)
  deriving DecidableEq

/-- What happened in a cycle. -/
structure Report where
  /-- How it ended. -/
  outcome : Outcome
  /-- What it logged, in order. -/
  log : List Message := []
  /-- The keys that it looked at, in order. -/
  asked : List Key := []
  deriving DecidableEq

namespace Vm

variable {δ : Type}

/-- One sixtieth of a second passes. -/
def tick (vm : Vm δ) : Vm δ := { vm with machine := vm.machine.tick }

/-- The picture is handed to the display. If it refuses, the picture stays due. -/
def present (display : Display δ) (vm : Vm δ) : Outcome × Vm δ :=
  match display.present vm.machine.frame vm.screen with
  | (.ok (), screen) =>
    (.completed .presented, { machine := { vm.machine with redraw := false }, screen })
  | (.error e, screen) => (.failed (.io e), { vm with screen })

/-- What an instruction at `pc` logs. -/
def logOf (pc : UInt16) (ins : Instruction) (waitBegan : Bool) : List Message :=
  .executing pc ins :: if waitBegan then [.waiting pc] else []

/-- An executed instruction's effect is made the state of the machine: the program counter
moves, and the picture is shown if it is due and nothing is waited for. -/
def commit (display : Display δ) (vm : Vm δ) (e : Effect) : Outcome × Vm δ :=
  let vm := { vm with machine := e.machine.goTo (e.flow.target vm.machine.registers.pc) }
  if e.flow = .wait then (.completed .waiting, vm)
  else if vm.machine.redraw then vm.present display
  else (.completed .ran, vm)

/-- One cycle while `keys` are down. -/
def cycle (display : Display δ) (keys : KeySet) (vm : Vm δ) : Report × Vm δ :=
  let pc := vm.machine.registers.pc
  match vm.machine.fetch with
  | .error fault => ({ outcome := .failed (.fatal pc fault) }, vm)
  | .ok ins =>
    match (Machine.executeM keys ins).run vm.machine with
    | .error (.fault fault) machine =>
      ({ outcome := .failed (.fatal pc fault), log := logOf pc ins false }, { vm with machine })
    | .error (.defect d) machine =>
      ({ outcome := .broken d, log := logOf pc ins false }, { vm with machine })
    | .ok done machine =>
      let (outcome, vm) := vm.commit display (done.effect machine)
      ({ outcome, log := logOf pc ins done.waitBegan, asked := done.asked }, vm)

/-! ## Several cycles -/

/-- Up to `n` cycles with the same keys down, ending after the first that does not complete,
and what `observe` makes of each. -/
def cycles {α : Type} (display : Display δ) (keys : KeySet) (observe : Report → Vm δ → α) :
    Nat → Vm δ → List α × Vm δ
  | 0, vm => ([], vm)
  | n + 1, vm =>
    let (report, vm) := vm.cycle display keys
    let seen := observe report vm
    match report.outcome with
    | .completed _ =>
      let (rest, vm) := vm.cycles display keys observe n
      (seen :: rest, vm)
    | _ => ([seen], vm)

end Vm

end Chip8
