import Chip8.Picture.Frame

/-!
# Drawing sprites

A sprite is a list of bytes, one for each row of eight pixels, the most significant bit
leftmost. It is drawn by switching over the pixel of every set bit, row by row and from left to
right. Coordinates are 64 bits wide: a pixel that a set bit puts past that range, or a row that
starts past it, stops the drawing, and what has been drawn so far stays.

* `Drawing` is the state while drawing: the frame, whether a lit pixel was switched off, and
  whether a coordinate ran out of range.
* `Frame.drawRow` and `Frame.drawSprite` draw a row and a whole sprite on a frame.
-/

namespace Chip8

/-- A frame that is being drawn on. -/
structure Drawing where
  /-- The frame as drawn so far. -/
  frame : Frame
  /-- A lit pixel was switched off. -/
  erased : Bool := false
  /-- A coordinate was out of range; nothing was drawn from there on. -/
  overflowed : Bool := false
  deriving DecidableEq

/-- Coordinates lie below this number. -/
def coordinateLimit : Nat := 0x10000000000000000

/-- The columns of the set bits of a row, from left to right. -/
def rowColumns (row : UInt8) : List Nat :=
  (List.range 8).filter fun col => leadingBit row col

namespace Drawing

/-- The pixel at (x, y) is switched over, unless the drawing has stopped or stops here. -/
def plot (d : Drawing) (x y : Nat) : Drawing :=
  if d.overflowed then d
  else if x < coordinateLimit then
    { d with frame := d.frame.flip x y, erased := d.erased || d.frame.lit x y }
  else { d with overflowed := true }

/-- A row is drawn with its left end at (x, y). -/
def row (d : Drawing) (x y : Nat) (bits : UInt8) : Drawing :=
  (rowColumns bits).foldl (fun d col => d.plot (x + col) y) d

/-- Rows are drawn one below the other, the first at (x, y). A row out of range stops the
drawing even if it has no bit set. -/
def sprite (d : Drawing) (x y : Nat) : List UInt8 → Drawing
  | [] => d
  | bits :: rest =>
    if d.overflowed then d
    else if y < coordinateLimit then (d.row x y bits).sprite x (y + 1) rest
    else { d with overflowed := true }

variable {d : Drawing} {x y : Nat} {bits : UInt8} {rows : List UInt8}

/-- A drawing that has stopped stays as it is. -/
@[simp] theorem plot_of_overflowed (h : d.overflowed = true) : d.plot x y = d := by
  rw [plot, if_pos h]

/-- A drawing that has stopped takes no further row. -/
@[simp] theorem sprite_of_overflowed (h : d.overflowed = true) : d.sprite x y rows = d := by
  cases rows with
  | nil => rfl
  | cons bits rest => rw [sprite, if_pos h]

end Drawing

namespace Frame

/-- One row of eight pixels drawn on a frame. -/
def drawRow (f : Frame) (x y : Nat) (bits : UInt8) : Drawing :=
  Drawing.row { frame := f } x y bits

/-- A sprite drawn on a frame. -/
def drawSprite (f : Frame) (x y : Nat) (rows : List UInt8) : Drawing :=
  Drawing.sprite { frame := f } x y rows

end Frame

/-! ## Drawings that stay in range -/

/-- A row whose last column is in range does not stop the drawing. -/
theorem Drawing.overflowed_row {d : Drawing} {x y : Nat} {bits : UInt8}
    (h : d.overflowed = false) (hx : x + 8 ≤ coordinateLimit) :
    (d.row x y bits).overflowed = false := by
  have hcols : ∀ col ∈ rowColumns bits, col < 8 := by
    intro col hcol
    exact List.mem_range.1 (List.mem_filter.1 hcol).1
  unfold Drawing.row
  generalize rowColumns bits = cols at hcols
  induction cols generalizing d with
  | nil => exact h
  | cons col rest ih =>
    rw [List.foldl_cons]
    have hcol := hcols col List.mem_cons_self
    apply ih
    · rw [Drawing.plot, if_neg (by simp [h]), if_pos (by omega)]
      exact h
    · exact fun c hc => hcols c (List.mem_cons_of_mem _ hc)

/-- A sprite whose last row and column are in range is drawn to its end. -/
theorem Drawing.overflowed_sprite {d : Drawing} {x y : Nat} {rows : List UInt8}
    (h : d.overflowed = false) (hx : x + 8 ≤ coordinateLimit)
    (hy : y + rows.length ≤ coordinateLimit) : (d.sprite x y rows).overflowed = false := by
  induction rows generalizing d y with
  | nil => exact h
  | cons bits rest ih =>
    have hlen : (bits :: rest).length = rest.length + 1 := rfl
    rw [Drawing.sprite, if_neg (by simp [h]), if_pos (by omega)]
    exact ih (Drawing.overflowed_row h hx) (by omega)

end Chip8
