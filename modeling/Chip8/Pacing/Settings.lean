import Chip8.Pacing.Pacer

/-!
# Settings

What can be chosen when the machine is set up to run.
-/

namespace Chip8

/-- The choices, with their usual values. -/
structure Settings where
  /-- Instructions per second. -/
  rate : Nat := 700
  /-- Where the random bytes start; without it, anywhere. -/
  seed : Option UInt64 := none
  /-- For how long a typed key counts as held, in nanoseconds. -/
  keyHold : Nat := 150000000
  deriving DecidableEq

/-- A pacer for the chosen rate, if that is supported. -/
def Settings.pacer (s : Settings) : Except Error Pacer := Pacer.ofRate s.rate

end Chip8
