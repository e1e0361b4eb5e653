/-!
# Halting from outside

A run can be asked to stop through a handle on a flag. Handles can be copied, and all copies of
a handle stand for the same flag, so that whoever holds one can halt the run. `HaltHandles`
keeps a row of handles, numbered from zero, with the flags they stand for.
-/

namespace Chip8

/-- Handles and their flags. -/
structure HaltHandles where
  /-- Whether each flag is raised. -/
  raised : Array Bool := #[]
  /-- The flag that each handle stands for. -/
  flagOf : Array Nat := #[]
  deriving DecidableEq

namespace HaltHandles

/-- One more handle, on a flag of its own that is not raised. -/
def create (hs : HaltHandles) : HaltHandles :=
  ⟨hs.raised.push false, hs.flagOf.push hs.raised.size⟩

/-- One more handle, on the flag of handle `h`, if there is such a handle. -/
def copy (hs : HaltHandles) (h : Nat) : HaltHandles :=
  match hs.flagOf[h]? with
  | some flag => { hs with flagOf := hs.flagOf.push flag }
  | none => hs

/-- Halting is requested through handle `h`, if there is such a handle. -/
def request (hs : HaltHandles) (h : Nat) : HaltHandles :=
  match hs.flagOf[h]? with
  | some flag => { hs with raised := hs.raised.setIfInBounds flag true }
  | none => hs

/-- For each handle, whether halting has been requested. -/
def requested (hs : HaltHandles) : List Bool :=
  hs.flagOf.toList.map fun flag => hs.raised.getD flag false

end HaltHandles

end Chip8
