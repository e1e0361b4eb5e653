import Chip8.Picture.Bits

/-!
# Frames

A frame is the machine's picture: 64 pixels wide, 32 high, lit or not. It is kept as 256 bytes,
eight to a row, the most significant bit leftmost. Coordinates wrap around on both axes.

* `Frame.lit` is what a frame means: whether the pixel at a place is lit. `Frame.ext_lit` says
  that nothing else matters.
* `Frame.flip` switches one pixel over, and `lit_flip` tells every pixel afterwards.
* `Frame.sketch` draws the frame with characters.
-/

namespace Chip8

/-- A picture of 64 by 32 pixels, packed into bytes row by row. -/
structure Frame where
  bytes : Vector UInt8 256
  deriving DecidableEq

namespace Frame

/-- Pixels in a row. -/
abbrev width : Nat := 64

/-- Rows. -/
abbrev height : Nat := 32

/-- No pixel lit. -/
def blank : Frame := ⟨.replicate 256 0⟩

/-- The number of the pixel at a place, counted row by row from the top left corner. -/
def pixelIndex (x y : Nat) : Nat := 64 * (y % 32) + x % 64

/-- Wherever a pixel is asked for, there is one. -/
theorem pixelIndex_lt (x y : Nat) : pixelIndex x y < 2048 := by
  unfold pixelIndex
  omega

/-- The pixel with a number is lit. -/
def litAt (f : Frame) (p : Nat) (h : p < 2048) : Bool :=
  leadingBit f.bytes[p / 8] (p % 8)

/-- The pixel at a place is lit. -/
def lit (f : Frame) (x y : Nat) : Bool := f.litAt (pixelIndex x y) (pixelIndex_lt x y)

/-- The frame with the pixel at a place switched over. -/
def flip (f : Frame) (x y : Nat) : Frame :=
  let p := pixelIndex x y
  have h : p / 8 < 256 := by have := pixelIndex_lt x y; omega
  ⟨f.bytes.set (p / 8) (switchBit f.bytes[p / 8] (p % 8))⟩

/-- No pixel is lit. -/
def isBlank (f : Frame) : Bool := f.bytes.all (· == 0)

/-! ## Views -/

/-- The eight bytes of a row. -/
def rowBytes (f : Frame) (y : Fin 32) : List UInt8 :=
  List.ofFn fun i : Fin 8 => f.bytes[8 * y.val + i.val]

/-- The rows that are not all dark, with their numbers, from the top. -/
def litRows (f : Frame) : List (Nat × List UInt8) :=
  (List.finRange 32).filterMap fun y =>
    let row := f.rowBytes y
    if row.all (· == 0) then none else some (y.val, row)

/-- One line of a sketch: `#` for a lit pixel and `.` for a dark one. -/
def sketchLine (f : Frame) (y : Nat) : List Char :=
  (List.range width).map fun x => if f.lit x y then '#' else '.'

/-- A title and the lines of the frame, each with its line end. -/
def sketch (f : Frame) : String :=
  "FrameBuffer\n" ++
    String.join ((List.range height).map fun y => String.ofList (f.sketchLine y ++ ['\n']))

/-! ## Pixels after a change -/

/-- A place names a pixel of the frame, and its remainders name the same one. -/
theorem pixelIndex_inj {x y a b : Nat} :
    pixelIndex x y = pixelIndex a b ↔ x % 64 = a % 64 ∧ y % 32 = b % 32 := by
  unfold pixelIndex
  omega

/-- Flipping a pixel changes that one and no other. -/
theorem litAt_flip (f : Frame) (x y p : Nat) (h : p < 2048) :
    (f.flip x y).litAt p h = (f.litAt p h != decide (pixelIndex x y = p)) := by
  simp only [litAt, flip, Vector.getElem_set]
  split
  · rename_i e
    simp only [e]
    rw [leadingBit_switchBit _ (by omega) (by omega)]
    congr 1
    apply decide_eq_decide.2
    omega
  · rename_i e
    rw [decide_eq_false (by omega)]
    simp

/-- Switching a pixel over changes that pixel and no other. -/
theorem lit_flip (f : Frame) (x y a b : Nat) :
    (f.flip x y).lit a b = (f.lit a b != decide (x % 64 = a % 64 ∧ y % 32 = b % 32)) := by
  rw [lit, litAt_flip, ← lit]
  congr 1
  exact decide_eq_decide.2 pixelIndex_inj

/-- Coordinates wrap around the picture. -/
@[simp] theorem lit_mod (f : Frame) (x y : Nat) : f.lit (x % 64) (y % 32) = f.lit x y := by
  simp [lit, pixelIndex]

/-- Frames with the same lit pixels are equal. -/
theorem ext_lit {f g : Frame} (h : ∀ x < 64, ∀ y < 32, f.lit x y = g.lit x y) : f = g := by
  obtain ⟨a⟩ := f
  obtain ⟨b⟩ := g
  congr 1
  apply Vector.ext
  intro i hi
  apply eq_of_leadingBit
  intro k hk
  have e := h (8 * (i % 8) + k) (by omega) (i / 8) (by omega)
  have hp : pixelIndex (8 * (i % 8) + k) (i / 8) = 8 * i + k := by
    unfold pixelIndex
    omega
  simpa [lit, litAt, hp, show (8 * i + k) / 8 = i by omega,
    show (8 * i + k) % 8 = k by omega] using e

/-- Nothing is lit in the blank picture. -/
@[simp] theorem lit_blank (x y : Nat) : blank.lit x y = false := by
  simp [lit, litAt, blank, leadingBit]

end Frame

end Chip8
