import Chip8.Fault
import Chip8.Picture.Frame

/-!
# Displays

A `Display δ` puts frames where someone can see them. What it shows, counts or prints is a
state of type `δ`, which each call may change, also one that fails.
-/

namespace Chip8

/-- How frames are put on a display with states `δ`. -/
structure Display (δ : Type) where
  /-- Show a frame. -/
  draw : Frame → δ → Except IoError Unit × δ
  /-- Show a blank screen; without a way of its own, by drawing a blank frame. -/
  clear : δ → Except IoError Unit × δ := draw .blank

/-- A blank frame is shown by clearing, any other by drawing. -/
def Display.present {δ : Type} (display : Display δ) (frame : Frame) (state : δ) :
    Except IoError Unit × δ :=
  if frame.isBlank then display.clear state else display.draw frame state

end Chip8
