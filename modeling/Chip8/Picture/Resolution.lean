import Chip8.Picture.Bits
import Chip8.Picture.Coordinate

/-!
# Bit planes

A screen of any size is packed into bytes like a frame: row by row, eight pixels to a byte, the
most significant bit leftmost, without gaps between the rows. `Resolution.plane` lists the
places of the pixels that have a given bit, in the coordinates of a canvas whose vertical axis
points up, so that rows count downwards from zero.
-/

namespace Chip8

/-- The size of a screen in pixels. -/
structure Resolution where
  width : Nat
  height : Nat
  deriving DecidableEq

namespace Resolution

/-- Pixels on the screen. -/
def pixels (r : Resolution) : Nat := r.width * r.height

/-- The number of pixels fits in 64 bits. -/
def fits (r : Resolution) : Bool := r.pixels < 0x10000000000000000

/-- Bytes that the pixels fill up. -/
def bytes (r : Resolution) : Nat := r.pixels / 8

/-- The least and greatest coordinate on each axis, as a canvas keeps them, if there is any pixel
at all. -/
def bounds? (r : Resolution) : Option ((Int × Int) × (Int × Int)) :=
  if r.width = 0 ∨ r.height = 0 then none
  else some ((0, Coordinate.round (r.width - 1)), (-Coordinate.round (r.height - 1), 0))

/-- Where pixel number `k` lies on the canvas. -/
def place (r : Resolution) (k : Nat) : Int × Int := ((k % r.width : Nat), -(k / r.width : Nat))

/-- The same, provided that the screen has a column to count by. -/
def place? (r : Resolution) (k : Nat) : Option (Int × Int) :=
  if r.width = 0 then none else some (r.place k)

/-- The bit of pixel number `k`, if the data reaches that far. -/
def bit? (data : Array UInt8) (k : Nat) : Option UInt8 :=
  data[k / 8]?.map fun b => if leadingBit b (k % 8) then 1 else 0

/-- The places of the pixels below number `k` with a given bit, from the last to the first;
undefined if one of those pixels lies past the data, or has that bit and no place. -/
def planeBelow (r : Resolution) (data : Array UInt8) (bit : UInt8) :
    Nat → Option (List (Int × Int))
  | 0 => some []
  | k + 1 =>
    match bit? data k with
    | none => none
    | some b =>
      if b = bit then
        match r.place? k with
        | none => none
        | some place => (r.planeBelow data bit k).map (place :: ·)
      else r.planeBelow data bit k

/-- The places of all pixels with a given bit, from the last to the first; undefined if one of them
lies past the data, or has no place. -/
def plane (r : Resolution) (data : List UInt8) (bit : UInt8) : Option (List (Int × Int)) :=
  r.planeBelow data.toArray bit r.pixels

end Resolution

end Chip8
