import Chip8.CommandLine.Arguments
import Chip8.CommandLine.Diagnosis
import Chip8.Memory.Program
import Chip8.Terminal.Panel
import Chip8.Terminal.World

/-!
# Sessions

A session is one use of the command. It takes the arguments, opens and loads the program, runs
it in the terminal, and ends with an exit code: 0 after a regular end or a wish for information,
1 after a failure, which a diagnosis explains, and 2 if the arguments make no sense. A breach of
an internal bound, which no program can cause, is 101.

* `Setup` is what a session has when the program is loaded, and `Setup.prepare` makes it.
* `Session.play` plays a whole session back, with the keys typed in it given beforehand.
-/

namespace Chip8

/-- A program that is ready to run in a terminal. -/
structure Setup where
  /-- The pacer at the chosen rate. -/
  pacer : Pacer
  /-- The machine, and a screen that shows nothing yet. -/
  vm : Vm (Option Frame)
  /-- The world, with nothing typed yet. -/
  world : Terminal
  /-- Stop after so many instructions. -/
  limit : Option Nat

/-- Why a program could not be made ready, or why its run failed. -/
inductive Failure where
  /-- The program's file could not be opened. -/
  | unopened (e : IoError)
  /-- Anything after that. -/
  | failed (e : Error)
  deriving DecidableEq

/-- The line that explains a failure. -/
def Failure.diagnosis : Failure → String
  | unopened e => Chip8.diagnosis e.term
  | failed e => Chip8.diagnosis e.term

/-- A program made ready. `opened` is its file, `seed` stands in for a seed that is not given. -/
def Setup.prepare (args : Arguments) (opened : Except IoError Reader) (seed : UInt64) :
    Except Failure Setup := do
  let settings := args.settings seed
  let pacer ← settings.pacer.mapError Failure.failed
  let reader ← opened.mapError Failure.unopened
  let (_, memory) ← (Memory.ofProgram reader).mapError Failure.failed
  return {
    pacer
    vm := { machine := .boot memory (settings.seed.getD seed), screen := none }
    world := { keyboard := { keys := { hold := settings.keyHold } } }
    limit := args.cycles }

/-- How a session ended. -/
structure Session where
  /-- The exit code. -/
  exit : Nat
  /-- The explanation of a failure. -/
  diagnosis : Option String := none
  /-- What the terminal shows in the end. -/
  screen : List String := []
  deriving DecidableEq

namespace Session

/-- A session that ends with a failure. -/
def ofFailure (f : Failure) (screen : List String) : Session :=
  { exit := 1, diagnosis := some f.diagnosis, screen }

/-- A session whose run has ended. -/
def ofEnding (ending : Ending) (screen : List String) : Session :=
  match ending with
  | .pollFailed e => ofFailure (.failed (.io e)) screen
  | .cycleFailed e => ofFailure (.failed e) screen
  | .broken _ => { exit := 101, screen }
  | .limitReached _ | .halted _ => { exit := 0, screen }

/-- A session played back: `files` opens the program, `typed` is typed before the session
starts and `later` once something has been on the screen for a while. There is no answer if
the run goes on after `budget` rounds. -/
def play (files : String → Except IoError Reader) (typed later : List UInt8) (seed : UInt64)
    (budget : Nat) (arguments : List String) : Option Session :=
  match Invocation.ofArguments arguments with
  | .misuse => some { exit := 2 }
  | .information => some { exit := 0 }
  | .run args =>
    match Setup.prepare args (files args.path) seed with
    | .error failure => some (ofFailure failure [])
    | .ok setup =>
      let world :=
        { setup.world with
          inbox := setup.world.inbox.send typed, later
          opening := Terminal.openingTime, showing := Terminal.showingTime }
      match Chip8.run Panel.display Terminal.host setup.limit budget setup.pacer setup.vm
          world with
      | (some ending, r) => some (ofEnding ending (Panel.shown r.vm.screen))
      | (none, _) => none

end Session

end Chip8
