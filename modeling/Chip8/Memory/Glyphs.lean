import Chip8.Memory.Bytes

/-!
# The glyphs of the sixteen digits

Each digit has a glyph of five rows, four pixels wide and kept in the high half of a byte. The
sixteen glyphs lie one after the other from address `0x050` on (`Glyphs.install`), and
`Glyphs.address` tells where a digit's glyph starts.
-/

namespace Chip8.Glyphs

/-- Where the first glyph lies. -/
def start : Nat := 0x050

/-- Rows in a glyph. -/
def rows : Nat := 5

/-- The five rows of each digit from 0 to F. -/
def table : List UInt8 := [
  0xF0, 0x90, 0x90, 0x90, 0xF0,
  0x20, 0x60, 0x20, 0x20, 0x70,
  0xF0, 0x10, 0xF0, 0x80, 0xF0,
  0xF0, 0x10, 0xF0, 0x10, 0xF0,
  0x90, 0x90, 0xF0, 0x10, 0x10,
  0xF0, 0x80, 0xF0, 0x10, 0xF0,
  0xF0, 0x80, 0xF0, 0x90, 0xF0,
  0xF0, 0x10, 0x20, 0x40, 0x40,
  0xF0, 0x90, 0xF0, 0x90, 0xF0,
  0xF0, 0x90, 0xF0, 0x10, 0xF0,
  0xF0, 0x90, 0xF0, 0x90, 0x90,
  0xE0, 0x90, 0xE0, 0x90, 0xE0,
  0xF0, 0x80, 0x80, 0x80, 0xF0,
  0xE0, 0x90, 0x90, 0x90, 0xE0,
  0xF0, 0x80, 0xF0, 0x80, 0xF0,
  0xF0, 0x80, 0xF0, 0x80, 0x80]

/-- Sixteen glyphs of five bytes are eighty bytes. -/
@[simp] theorem length_table : table.length = 80 := rfl

/-- The rows of one digit's glyph. -/
def glyph (digit : Fin 16) : List UInt8 := (table.drop (rows * digit)).take rows

/-- Where the glyph of a byte would start; only the values below sixteen have one. -/
def address (digit : UInt8) : UInt16 := .ofNat (start + rows * digit.toNat)

/-- The same, provided that it is an address of sixteen bits. -/
def address? (digit : UInt8) : Option UInt16 :=
  if start + rows * digit.toNat < 0x10000 then some (address digit) else none

/-- No byte is too large for its glyph's address. -/
theorem toNat_address (digit : UInt8) : (address digit).toNat = start + rows * digit.toNat := by
  have h := digit.toNat_lt
  simp only [address, start, rows, UInt16.toNat_ofNat']
  omega

/-- The address of no digit's glyph wraps, whatever byte the digit is. -/
theorem start_add_lt (digit : UInt8) : start + rows * digit.toNat < 0x10000 := by
  have h := digit.toNat_lt
  simp only [start, rows]
  omega

/-- A glyph's address is the sum, provided that this does not wrap. -/
theorem address?_eq_some {digit : UInt8} (h : start + rows * digit.toNat < 0x10000) :
    address? digit = some (address digit) := by
  rw [address?, if_pos h]

/-- The block with the glyphs in their place, if it is long enough to hold them all. -/
def install {n : Nat} (block : Vector UInt8 n) : Option (Vector UInt8 n) :=
  if start + table.length ≤ n then some (overwrite block start table) else none

end Chip8.Glyphs
