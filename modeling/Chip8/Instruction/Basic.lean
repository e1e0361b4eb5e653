/-!
# Instructions

`Instruction` lists what the machine can be told to do. Operands stand apart from the word they
came in: register numbers and counts are bytes, addresses are sixteen bits wide, and nothing
here keeps them in the range that a word has room for; that range is `Instruction.Encodable`.
-/

namespace Chip8

/-- One instruction. In the words, `x` and `y` name registers, `kk` is a byte, `nnn` an address
of twelve bits and `n` a count of four. -/
inductive Instruction where
  /-- `00E0`: blank the picture. -/
  | clear
  /-- `00EE`: go back to the caller. -/
  | ret
  /-- `1nnn`: go to an address. -/
  | jump (nnn : UInt16)
  /-- `2nnn`: remember the next instruction and go to an address. -/
  | call (nnn : UInt16)
  /-- `3xkk`: skip one instruction if Vx is kk. -/
  | skipIfByte (x kk : UInt8)
  /-- `4xkk`: skip one instruction unless Vx is kk. -/
  | skipUnlessByte (x kk : UInt8)
  /-- `5xy0`: skip one instruction if Vx is Vy. -/
  | skipIfSame (x y : UInt8)
  /-- `6xkk`: set Vx to kk. -/
  | setByte (x kk : UInt8)
  /-- `7xkk`: add kk to Vx, without a carry. -/
  | addByte (x kk : UInt8)
  /-- `8xy0`: set Vx to Vy. -/
  | copy (x y : UInt8)
  /-- `8xy1`: set Vx to the bitwise or. -/
  | or (x y : UInt8)
  /-- `8xy2`: set Vx to the bitwise and. -/
  | and (x y : UInt8)
  /-- `8xy3`: set Vx to the bitwise exclusive or. -/
  | xor (x y : UInt8)
  /-- `8xy4`: add Vy to Vx; VF tells whether the sum carried. -/
  | add (x y : UInt8)
  /-- `8xy5`: subtract Vy from Vx; VF tells that nothing was borrowed. -/
  | subtract (x y : UInt8)
  /-- `8xy6`: shift Vx right by one; VF is the bit that fell out. The word's `y` is ignored. -/
  | shiftRight (x : UInt8)
  /-- `8xy7`: set Vx to Vy less Vx; VF tells that nothing was borrowed. -/
  | subtractFrom (x y : UInt8)
  /-- `8xyE`: shift Vx left by one; VF is the bit that fell out. The word's `y` is ignored. -/
  | shiftLeft (x : UInt8)
  /-- `9xy0`: skip one instruction unless Vx is Vy. -/
  | skipUnlessSame (x y : UInt8)
  /-- `Annn`: set the index register. -/
  | setIndex (nnn : UInt16)
  /-- `Bnnn`: go to an address plus V0. -/
  | jumpFrom (nnn : UInt16)
  /-- `Cxkk`: set Vx to a random byte, masked by kk. -/
  | random (x kk : UInt8)
  /-- `Dxyn`: draw the n bytes at the index register as a sprite at (Vx, Vy); VF tells whether
  a lit pixel was switched off. -/
  | draw (x y n : UInt8)
  /-- `Ex9E`: skip one instruction if the key in Vx is down. -/
  | skipIfKey (x : UInt8)
  /-- `ExA1`: skip one instruction unless the key in Vx is down. -/
  | skipUnlessKey (x : UInt8)
  /-- `Fx07`: set Vx to the delay timer. -/
  | readDelay (x : UInt8)
  /-- `Fx0A`: wait for a key to go down and put it into Vx. -/
  | awaitKey (x : UInt8)
  /-- `Fx15`: set the delay timer to Vx. -/
  | setDelay (x : UInt8)
  /-- `Fx18`: set the sound timer to Vx. -/
  | setSound (x : UInt8)
  /-- `Fx1E`: add Vx to the index register. -/
  | addIndex (x : UInt8)
  /-- `Fx29`: point the index register at the glyph of the digit in Vx. -/
  | pointGlyph (x : UInt8)
  /-- `Fx33`: store the three decimal digits of Vx at the index register. -/
  | storeDecimal (x : UInt8)
  /-- `Fx55`: store V0 to Vx at the index register. -/
  | save (x : UInt8)
  /-- `Fx65`: load V0 to Vx from the index register. -/
  | restore (x : UInt8)
  deriving DecidableEq

namespace Instruction

/-- The register numbers and four-bit counts among the operands. -/
def nibbles : Instruction → List UInt8
  | clear | ret | jump _ | call _ | setIndex _ | jumpFrom _ => []
  | skipIfByte x _ | skipUnlessByte x _ | setByte x _ | addByte x _ | random x _ => [x]
  | skipIfSame x y | skipUnlessSame x y | copy x y | or x y | and x y | xor x y | add x y
  | subtract x y | subtractFrom x y => [x, y]
  | draw x y n => [x, y, n]
  | shiftRight x | shiftLeft x | skipIfKey x | skipUnlessKey x | readDelay x | awaitKey x
  | setDelay x | setSound x | addIndex x | pointGlyph x | storeDecimal x | save x
  | restore x => [x]

/-- The address among the operands, if there is one. -/
def address? : Instruction → Option UInt16
  | jump nnn | call nnn | setIndex nnn | jumpFrom nnn => some nnn
  | _ => none

/-- Every operand fits in its field of the word. -/
def Encodable (ins : Instruction) : Prop :=
  (∀ n ∈ ins.nibbles, n < 16) ∧ ∀ a ∈ ins.address?, a < 4096

instance (ins : Instruction) : Decidable ins.Encodable :=
  inferInstanceAs (Decidable (_ ∧ _))

end Instruction

end Chip8
