import Chip8.Picture.Frame
import Chip8.Proofs.Display.Journal
import Chip8.Proofs.Picture.Planes

/-!
# The views of a frame

A frame can be looked at pixel by pixel, as bytes, as the bit planes that a canvas is given, and as
text. Each view has its own way from a place to a bit.

* `lit_eq` finds the pixel's bit among the bytes.
* `mem_places_one_iff`, `mem_places_zero_iff` and `count_places_one` find its place in the planes.
* `lines_sketch` cuts the text into lines, and `ink?_eq` finds the pixel's character among them.
* `views_agree` says that all of them tell the same picture.
-/

namespace Chip8.Frame

variable {f : Frame} {x y : Nat}

/-! ## Bytes -/

/-- A row has eight bytes, and a byte eight pixels, the most significant bit leftmost. -/
theorem lit_eq (f : Frame) (hx : x < 64) (hy : y < 32) :
    f.lit x y = f.bytes[8 * y + x / 8].toNat.testBit (7 - x % 8) := by
  have hbyte : pixelIndex x y / 8 = 8 * y + x / 8 := by
    unfold pixelIndex
    omega
  have hbit : pixelIndex x y % 8 = x % 8 := by
    unfold pixelIndex
    omega
  simp only [lit, litAt, leadingBit, hbyte, hbit]

/-- A frame is blank if no pixel is lit. -/
theorem isBlank_iff_dark : f.isBlank = true ↔ ∀ x < 64, ∀ y < 32, f.lit x y = false := by
  rw [isBlank_iff]
  constructor
  · rintro rfl x - y -
    exact lit_blank x y
  · intro h
    apply ext_lit
    intro x hx y hy
    rw [h x hx y hy, lit_blank]

/-! ## Bit planes -/

/-- The screen that a frame fills. -/
def resolution : Resolution := ⟨64, 32⟩

/-- The places of the pixels with a bit, from the last to the first. -/
def places (f : Frame) (bit : UInt8) : List (Int × Int) :=
  (resolution.numbers f.bytes.toList bit).map resolution.place

/-- The bytes of a frame reach all of its pixels. -/
theorem plane_eq_places (f : Frame) (bit : UInt8) :
    resolution.plane f.bytes.toList bit = some (f.places bit) := by
  apply Resolution.plane_eq
  rw [Vector.length_toList]
  decide

/-- The place of a pixel. -/
theorem place_eq (hx : x < 64) : resolution.place (64 * y + x) = ((x : Int), -(y : Int)) := by
  have hcol : (64 * y + x) % 64 = x := by omega
  have hrow : (64 * y + x) / 64 = y := by omega
  show ((((64 * y + x) % 64 : Nat) : Int), -(((64 * y + x) / 64 : Nat) : Int)) = _
  rw [hcol, hrow]

/-- The bytes of a frame hold the bit of a pixel. -/
theorem shows_one_iff_lit (hx : x < 64) (hy : y < 32) :
    Resolution.Shows f.bytes.toList 1 (64 * y + x) ↔ f.lit x y = true := by
  have hbyte : (64 * y + x) / 8 = 8 * y + x / 8 := by omega
  have hbit : (64 * y + x) % 8 = x % 8 := by omega
  have hdata : f.bytes.toList[8 * y + x / 8]? = some f.bytes[8 * y + x / 8] := by
    rw [Vector.getElem?_toList]
    exact Vector.getElem?_eq_getElem _
  rw [Resolution.Shows, hbyte, hbit, hdata, lit_eq f hx hy, ← leadingBit,
    Resolution.leadingBit_eq_decide, decide_eq_true_iff]
  simp

/-- The place of a pixel is in the plane of its bit. -/
theorem mem_places_iff (hx : x < 64) (hy : y < 32) (bit : UInt8) :
    ((x : Int), -(y : Int)) ∈ f.places bit ↔ Resolution.Shows f.bytes.toList bit (64 * y + x) := by
  have hlt : 64 * y + x < resolution.pixels := by
    show 64 * y + x < 64 * 32
    omega
  rw [places, ← place_eq hx, List.mem_map_of_injective resolution.place_injective,
    Resolution.mem_numbers]
  exact and_iff_right hlt

/-- A pixel is in the plane of ones if it is lit. -/
theorem mem_places_one_iff (hx : x < 64) (hy : y < 32) :
    ((x : Int), -(y : Int)) ∈ f.places 1 ↔ f.lit x y = true :=
  (mem_places_iff hx hy 1).trans (shows_one_iff_lit hx hy)

/-- It is in the plane of zeros if it is dark. -/
theorem mem_places_zero_iff (hx : x < 64) (hy : y < 32) :
    ((x : Int), -(y : Int)) ∈ f.places 0 ↔ f.lit x y = false := by
  have hlt : 64 * y + x < 8 * f.bytes.toList.length := by
    rw [Vector.length_toList]
    omega
  rw [mem_places_iff hx hy, ← not_iff_not, ← Resolution.shows_one_iff hlt, shows_one_iff_lit hx hy,
    Bool.not_eq_false]

/-- The place of a lit pixel is listed once. -/
theorem count_places_one (hx : x < 64) (hy : y < 32) :
    (f.places 1).count ((x : Int), -(y : Int)) = if f.lit x y = true then 1 else 0 := by
  by_cases hlit : f.lit x y = true
  · rw [if_pos hlit]
    have hnodup : (f.places 1).Nodup := resolution.nodup_places f.bytes.toList 1
    exact List.count_eq_one_of_mem hnodup ((mem_places_one_iff hx hy).2 hlit)
  · rw [if_neg hlit]
    exact List.count_eq_zero_of_not_mem (mt (mem_places_one_iff hx hy).1 hlit)

/-! ## Text -/

/-- Lines that each have their end make up a text with one more line, which is empty. -/
theorem intercalate_lines (lineEnd : Char) (lines : List (List Char)) :
    [lineEnd].intercalate (lines ++ [[]]) = lines.flatMap (· ++ [lineEnd]) := by
  induction lines with
  | nil => rfl
  | cons line rest ih =>
    obtain ⟨first, more, hmore⟩ := List.exists_cons_of_ne_nil (List.concat_ne_nil [] rest)
    rw [List.cons_append, hmore, List.intercalate_cons_cons, ← hmore, ih, List.flatMap_cons]

/-- A line of the sketch has no line end inside. -/
theorem lineEnd_not_mem_sketchLine (f : Frame) (y : Nat) : '\n' ∉ f.sketchLine y := by
  intro hmem
  obtain ⟨x, -, hx⟩ := List.mem_map.1 hmem
  split at hx <;> exact absurd hx (by decide)

/-- The lines of the sketch: a title, the rows of the frame, and an empty one after the last line
end. -/
theorem lines_sketch (f : Frame) :
    f.sketch.toList.splitOn '\n' =
      "FrameBuffer".toList :: (List.range 32).map f.sketchLine ++ [[]] := by
  have htext : f.sketch.toList =
      ['\n'].intercalate ("FrameBuffer".toList :: (List.range 32).map f.sketchLine ++ [[]]) := by
    rw [intercalate_lines, sketch, String.toList_append, String.toList_join]
    simp [List.flatMap_map]
  rw [htext]
  refine List.splitOn_intercalate _ ?_ (by simp)
  intro line hline
  simp only [List.cons_append, List.mem_cons, List.mem_append, List.mem_map, List.not_mem_nil,
    or_false] at hline
  rcases hline with rfl | ⟨y, -, rfl⟩ | rfl
  · decide
  · exact f.lineEnd_not_mem_sketchLine y
  · exact List.not_mem_nil

/-- The character in column `x` of the line for row `y` of the sketch. The title is line zero. -/
def ink? (f : Frame) (x y : Nat) : Option Char :=
  (f.sketch.toList.splitOn '\n')[y + 1]?.bind (·[x]?)

/-- A pixel's character tells whether it is lit. -/
theorem ink?_eq (hx : x < 64) (hy : y < 32) :
    f.ink? x y = some (if f.lit x y = true then '#' else '.') := by
  have hline : (f.sketch.toList.splitOn '\n')[y + 1]? = some (f.sketchLine y) := by
    have hlen : y < ((List.range 32).map f.sketchLine).length := by simpa
    rw [lines_sketch, List.cons_append, List.getElem?_cons_succ, List.getElem?_append_left hlen]
    simp [hy]
  rw [ink?, hline, Option.bind_some, sketchLine, List.getElem?_map, List.getElem?_range hx]
  rfl

/-- **All views of a frame agree.** A pixel is lit exactly if its bit is set in its byte, if its
place is listed in the plane of one, and then once, if it is not listed in the plane of zero, and if
its character in the sketch is `#`. A frame is blank exactly if all its pixels are dark, two frames
are equal exactly if all their pixels are, and coordinates wrap around. -/
theorem views_agree (f : Frame) :
    (∃ dark lit, Resolution.plane ⟨64, 32⟩ f.bytes.toList 0 = some dark ∧
      Resolution.plane ⟨64, 32⟩ f.bytes.toList 1 = some lit ∧
      ∀ x (_ : x < 64) y (_ : y < 32),
        (f.lit x y = true ↔ f.bytes[8 * y + x / 8].toNat.testBit (7 - x % 8) = true) ∧
        (f.lit x y = true ↔ ((x : Int), -(y : Int)) ∈ lit) ∧
        lit.count ((x : Int), -(y : Int)) = (if f.lit x y = true then 1 else 0) ∧
        (f.lit x y = true ↔ ((x : Int), -(y : Int)) ∉ dark) ∧
        f.ink? x y = some (if f.lit x y = true then '#' else '.')) ∧
    (f.isBlank = true ↔ ∀ x < 64, ∀ y < 32, f.lit x y = false) ∧
    (∀ g : Frame, f = g ↔ ∀ x < 64, ∀ y < 32, f.lit x y = g.lit x y) ∧
    ∀ x y, f.lit x y = f.lit (x % 64) (y % 32) := by
  refine ⟨⟨f.places 0, f.places 1, f.plane_eq_places 0, f.plane_eq_places 1, ?_⟩, isBlank_iff_dark,
    ?_, ?_⟩
  · intro x hx y hy
    refine ⟨by rw [lit_eq f hx hy], (mem_places_one_iff hx hy).symm, count_places_one hx hy, ?_,
      ink?_eq hx hy⟩
    rw [mem_places_zero_iff hx hy, Bool.not_eq_false]
  · intro g
    refine ⟨fun h x _ y _ => by rw [h], ext_lit⟩
  · intro x y
    exact (f.lit_mod x y).symm

end Chip8.Frame
