import Chip8.Fault
import Chip8.Instruction.Basic

/-!
# Instructions as words

A word of sixteen bits is read as four nibbles. The first picks the family of the instruction,
the others hold its operands; some families look at the last nibble or the last byte to tell
their members apart.

* `Instruction.encode` writes an instruction into a word. The two shifts leave one nibble
  unused, which the caller fills with `spare`.
* `Instruction.decode` reads a word, and faults on one that encodes nothing.
-/

namespace Chip8.Instruction

/-! ## Writing -/

/-- The word `fxyn` made of four nibbles. -/
def wordOfNibbles (f x y n : Nat) : UInt16 := .ofNat (4096 * f + 256 * x + 16 * y + n)

/-- The word `fxkk` made of two nibbles and a byte. -/
def wordOfByte (f x kk : Nat) : UInt16 := .ofNat (4096 * f + 256 * x + kk)

/-- The word `fnnn` made of a nibble and an address. -/
def wordOfAddress (f nnn : Nat) : UInt16 := .ofNat (4096 * f + nnn)

/-- The word of an instruction whose operands fit. `spare` fills the nibble that a shift does
not use. -/
def encode (spare : Nat) : Instruction → UInt16
  | clear => 0x00E0
  | ret => 0x00EE
  | jump nnn => wordOfAddress 0x1 nnn.toNat
  | call nnn => wordOfAddress 0x2 nnn.toNat
  | skipIfByte x kk => wordOfByte 0x3 x.toNat kk.toNat
  | skipUnlessByte x kk => wordOfByte 0x4 x.toNat kk.toNat
  | skipIfSame x y => wordOfNibbles 0x5 x.toNat y.toNat 0x0
  | setByte x kk => wordOfByte 0x6 x.toNat kk.toNat
  | addByte x kk => wordOfByte 0x7 x.toNat kk.toNat
  | copy x y => wordOfNibbles 0x8 x.toNat y.toNat 0x0
  | or x y => wordOfNibbles 0x8 x.toNat y.toNat 0x1
  | and x y => wordOfNibbles 0x8 x.toNat y.toNat 0x2
  | xor x y => wordOfNibbles 0x8 x.toNat y.toNat 0x3
  | add x y => wordOfNibbles 0x8 x.toNat y.toNat 0x4
  | subtract x y => wordOfNibbles 0x8 x.toNat y.toNat 0x5
  | shiftRight x => wordOfNibbles 0x8 x.toNat spare 0x6
  | subtractFrom x y => wordOfNibbles 0x8 x.toNat y.toNat 0x7
  | shiftLeft x => wordOfNibbles 0x8 x.toNat spare 0xE
  | skipUnlessSame x y => wordOfNibbles 0x9 x.toNat y.toNat 0x0
  | setIndex nnn => wordOfAddress 0xA nnn.toNat
  | jumpFrom nnn => wordOfAddress 0xB nnn.toNat
  | random x kk => wordOfByte 0xC x.toNat kk.toNat
  | draw x y n => wordOfNibbles 0xD x.toNat y.toNat n.toNat
  | skipIfKey x => wordOfByte 0xE x.toNat 0x9E
  | skipUnlessKey x => wordOfByte 0xE x.toNat 0xA1
  | readDelay x => wordOfByte 0xF x.toNat 0x07
  | awaitKey x => wordOfByte 0xF x.toNat 0x0A
  | setDelay x => wordOfByte 0xF x.toNat 0x15
  | setSound x => wordOfByte 0xF x.toNat 0x18
  | addIndex x => wordOfByte 0xF x.toNat 0x1E
  | pointGlyph x => wordOfByte 0xF x.toNat 0x29
  | storeDecimal x => wordOfByte 0xF x.toNat 0x33
  | save x => wordOfByte 0xF x.toNat 0x55
  | restore x => wordOfByte 0xF x.toNat 0x65

/-! ## Reading -/

/-- The instruction that a word encodes. It depends on the word alone. -/
def decode (word : UInt16) : Except Fault Instruction :=
  let w := word.toNat
  let x := UInt8.ofNat (w / 256 % 16)
  let y := UInt8.ofNat (w / 16 % 16)
  let kk := UInt8.ofNat (w % 256)
  let nnn := UInt16.ofNat (w % 4096)
  let unknown := .error (.unknownInstruction word)
  match w / 4096 with
  | 0x0 =>
    if w = 0x00E0 then .ok clear
    else if w = 0x00EE then .ok ret
    else unknown
  | 0x1 => .ok (jump nnn)
  | 0x2 => .ok (call nnn)
  | 0x3 => .ok (skipIfByte x kk)
  | 0x4 => .ok (skipUnlessByte x kk)
  | 0x5 => if w % 16 = 0 then .ok (skipIfSame x y) else unknown
  | 0x6 => .ok (setByte x kk)
  | 0x7 => .ok (addByte x kk)
  | 0x8 =>
    match w % 16 with
    | 0x0 => .ok (copy x y)
    | 0x1 => .ok (or x y)
    | 0x2 => .ok (and x y)
    | 0x3 => .ok (xor x y)
    | 0x4 => .ok (add x y)
    | 0x5 => .ok (subtract x y)
    | 0x6 => .ok (shiftRight x)
    | 0x7 => .ok (subtractFrom x y)
    | 0xE => .ok (shiftLeft x)
    | _ => unknown
  | 0x9 => if w % 16 = 0 then .ok (skipUnlessSame x y) else unknown
  | 0xA => .ok (setIndex nnn)
  | 0xB => .ok (jumpFrom nnn)
  | 0xC => .ok (random x kk)
  | 0xD => .ok (draw x y (UInt8.ofNat (w % 16)))
  | 0xE =>
    match w % 256 with
    | 0x9E => .ok (skipIfKey x)
    | 0xA1 => .ok (skipUnlessKey x)
    | _ => unknown
  | 0xF =>
    match w % 256 with
    | 0x07 => .ok (readDelay x)
    | 0x0A => .ok (awaitKey x)
    | 0x15 => .ok (setDelay x)
    | 0x18 => .ok (setSound x)
    | 0x1E => .ok (addIndex x)
    | 0x29 => .ok (pointGlyph x)
    | 0x33 => .ok (storeDecimal x)
    | 0x55 => .ok (save x)
    | 0x65 => .ok (restore x)
    | _ => unknown
  | _ => unknown

end Chip8.Instruction
