import Chip8.Pacing.Settings
import Chip8.Text.Decimal

/-!
# Arguments

The command takes the path of a program and four options with numbers:

* `--rate N`: instructions per second, from 1 to 1000000;
* `--seed N`: where the random bytes start;
* `--cycles N`: stop after so many instructions;
* `--key-hold-ms N`: for how long a typed key counts as held.

An option's number is the next argument or follows after `=`. It is written in decimal digits,
with at most one `+` in front, and no option is given twice. After `--` everything is a path.
`--help`, `-h`, `--version` and `-V` ask for information instead.

Arguments are taken from left to right, and the first that is wrong or asks for information
decides.
-/

namespace Chip8

/-- What a run is asked to do. -/
structure Arguments where
  /-- The path of the program. -/
  path : String
  /-- Instructions per second. -/
  rate : Nat := 700
  /-- Where the random bytes start; without it, anywhere. -/
  seed : Option Nat := none
  /-- Stop after so many instructions; without it, never. -/
  cycles : Option Nat := none
  /-- For how long a typed key counts as held, in milliseconds. -/
  keyHoldMs : Nat := 150
  deriving DecidableEq

/-- The settings that the arguments choose; `seed` stands in for a seed that is not given. -/
def Arguments.settings (a : Arguments) (seed : UInt64) : Settings where
  rate := a.rate
  seed := some ((a.seed.map UInt64.ofNat).getD seed)
  keyHold := a.keyHoldMs * 1000000

/-- What the command line asks for. -/
inductive Invocation where
  /-- Run a program. -/
  | run (args : Arguments)
  /-- Tell how to use the command, or its version. -/
  | information
  /-- The arguments make no sense. -/
  | misuse
  deriving DecidableEq

namespace Invocation

/-- The options that take a number. -/
inductive OptionName where
  | rate
  | seed
  | cycles
  | keyHoldMs
  deriving DecidableEq

/-- What has been given so far. -/
structure Draft where
  path : Option String := none
  rate : Option Nat := none
  seed : Option Nat := none
  cycles : Option Nat := none
  keyHoldMs : Option Nat := none

/-- The number that a text spells, if it has 64 bits at most. -/
def number64? (s : String) : Option Nat := Decimal.readBelow? 0x10000000000000000 s.toList

/-- A field set for the first time. -/
def once (old new : Option Nat) : Option (Option Nat) :=
  match old, new with
  | none, some n => some (some n)
  | _, _ => none

namespace Draft

/-- The draft with an option's value, unless that is no number in range or is given again. -/
def set? (d : Draft) (name : OptionName) (value : String) : Option Draft :=
  match name with
  | .rate =>
    let inRange := fun n => Pacer.lowestRate ≤ n && n ≤ Pacer.highestRate
    (once d.rate ((Decimal.read? value.toList).filter inRange)).map fun rate => { d with rate }
  | .seed => (once d.seed (number64? value)).map fun seed => { d with seed }
  | .cycles => (once d.cycles (number64? value)).map fun cycles => { d with cycles }
  | .keyHoldMs => (once d.keyHoldMs (number64? value)).map fun keyHoldMs => { d with keyHoldMs }

/-- The draft with a path, unless that is empty or there is one. -/
def setPath? (d : Draft) (path : String) : Option Draft :=
  if d.path.isNone && !path.isEmpty then some { d with path := some path } else none

/-- What the draft asks for when all arguments have been taken. -/
def finish (d : Draft) : Invocation :=
  match d.path with
  | none => .misuse
  | some path =>
    .run
      { path
        rate := d.rate.getD 700
        seed := d.seed
        cycles := d.cycles
        keyHoldMs := d.keyHoldMs.getD 150 }

end Draft

/-- The kinds of arguments. -/
inductive Token where
  /-- The program's path. -/
  | path (text : String)
  /-- Everything after this is a path. -/
  | separator
  /-- An option, with its value if that follows after `=`. -/
  | option (name : OptionName) (value : Option String)
  /-- A wish for information. -/
  | information
  /-- Nothing known. -/
  | unknown
  deriving DecidableEq

/-- A text split at the first `=`, if it has one. -/
def splitValue (cs : List Char) : String × Option String :=
  match cs.dropWhile (· ≠ '=') with
  | [] => (String.ofList cs, none)
  | _ :: value => (String.ofList (cs.takeWhile (· ≠ '=')), some (String.ofList value))

/-- What an argument that begins with two dashes means. -/
def longOption (cs : List Char) : Token :=
  match splitValue cs with
  | ("rate", value) => .option .rate value
  | ("seed", value) => .option .seed value
  | ("cycles", value) => .option .cycles value
  | ("key-hold-ms", value) => .option .keyHoldMs value
  | ("help", none) | ("version", none) => .information
  | _ => .unknown

/-- What an argument means. A single dash is a path. -/
def classify (argument : String) : Token :=
  match argument.toList with
  | ['-', '-'] => .separator
  | '-' :: '-' :: rest => longOption rest
  | '-' :: c :: _ => if c = 'h' ∨ c = 'V' then .information else .unknown
  | _ => .path argument

/-- Everything is a path. -/
def takePaths (d : Draft) : List String → Invocation
  | [] => d.finish
  | path :: rest =>
    match d.setPath? path with
    | some d => takePaths d rest
    | none => .misuse

/-- The arguments are taken one after the other. -/
def take (d : Draft) : List String → Invocation
  | [] => d.finish
  | argument :: rest =>
    match classify argument with
    | .separator => takePaths d rest
    | .information => .information
    | .unknown => .misuse
    | .path path =>
      match d.setPath? path with
      | some d => take d rest
      | none => .misuse
    | .option name (some value) =>
      match d.set? name value with
      | some d => take d rest
      | none => .misuse
    | .option name none =>
      match rest with
      | [] => .misuse
      | value :: rest =>
        -- what looks like another option is no value
        match classify value with
        | .path value =>
          match d.set? name value with
          | some d => take d rest
          | none => .misuse
        | _ => .misuse

/-- What a list of arguments asks for. -/
def ofArguments (arguments : List String) : Invocation := take {} arguments

end Invocation

end Chip8
