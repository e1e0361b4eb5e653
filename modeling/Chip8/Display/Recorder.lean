import Chip8.Display.Basic

/-!
# A display that records

The recorder remembers what it was asked to show and counts the calls. For trying out how the
machine takes refusals, chosen calls can be made to fail: those record nothing.
-/

namespace Chip8

/-- What a recorder has seen. -/
structure Recorder where
  /-- Calls, the failed ones too. -/
  calls : Nat := 0
  /-- Frames drawn. -/
  draws : Nat := 0
  /-- Times cleared. -/
  clears : Nat := 0
  /-- What was shown last. -/
  last : Option Frame := none
  deriving DecidableEq

namespace Recorder

/-- A call, which fails if its number, counted from one, is among `failing`, and is recorded by
`record` if not. -/
def call (failing : List Nat) (record : Recorder → Recorder) (r : Recorder) :
    Except IoError Unit × Recorder :=
  let r := { r with calls := r.calls + 1 }
  if r.calls ∈ failing then (.error (.device s!"display failed on call {r.calls}"), r)
  else (.ok (), record r)

/-- A frame was drawn. -/
def recordDraw (frame : Frame) (r : Recorder) : Recorder :=
  { r with draws := r.draws + 1, last := some frame }

/-- The screen was cleared. -/
def recordClear (r : Recorder) : Recorder :=
  { r with clears := r.clears + 1, last := some .blank }

/-- The recorder as a display that tells clearing from drawing. -/
def display (failing : List Nat) : Display Recorder where
  draw frame := call failing (recordDraw frame)
  clear := call failing recordClear

/-- The recorder as a display that can only draw. -/
def drawOnly (failing : List Nat) : Display Recorder where
  draw frame := call failing (recordDraw frame)

/-- The frame shown last; nothing lit before the first. -/
def shown (r : Recorder) : Frame := r.last.getD .blank

end Recorder

end Chip8
