import Chip8.Instruction.Encoding

/-!
# Assembler text

An instruction is written as a name, a blank, and its operands separated by a comma and a
blank (`DRW V1, V2, 15`). `Mnemonic` keeps name and operands apart, so that the text is made in
one place and what an instruction is called is a plain table.

* `Operand.text`: each kind of operand has a spelling of its own.
* `Instruction.mnemonic`: the table.
* `Instruction.text`: the finished line.
* `disassemble`: the line for a word, which may encode nothing.
-/

namespace Chip8

/-- An operand as the assembler writes it. -/
inductive Operand where
  /-- A register, by its number. -/
  | register (x : UInt8)
  /-- A byte. -/
  | byte (kk : UInt8)
  /-- An address. -/
  | address (nnn : UInt16)
  /-- A number of rows, in decimal. -/
  | count (n : UInt8)
  /-- The index register. -/
  | index
  /-- The memory at the index register. -/
  | atIndex
  /-- The delay timer. -/
  | delay
  /-- The sound timer. -/
  | sound
  /-- The keypad. -/
  | key
  /-- The glyph of a digit. -/
  | glyph
  /-- Decimal digits. -/
  | decimal
  deriving DecidableEq

/-- The spelling of an operand. -/
def Operand.text : Operand → String
  | register x => "V" ++ Hexadecimal.bare x.toNat
  | byte kk => Hexadecimal.marked 4 kk.toNat
  | address nnn => Hexadecimal.marked 5 nnn.toNat
  | count n => toString n.toNat
  | index => "I"
  | atIndex => "[I]"
  | delay => "DT"
  | sound => "ST"
  | key => "K"
  | glyph => "F"
  | decimal => "B"

/-- A name with its operands. -/
structure Mnemonic where
  /-- What the assembler calls the operation. -/
  name : String
  /-- The operands, in order. -/
  operands : List Operand
  deriving DecidableEq

/-- The name, and after a blank the operands separated by a comma and a blank. -/
def Mnemonic.text (m : Mnemonic) : String :=
  match m.operands with
  | [] => m.name
  | ops => m.name ++ " " ++ ", ".intercalate (ops.map Operand.text)

namespace Instruction

open Operand in
/-- What the assembler calls each instruction. -/
def mnemonic : Instruction → Mnemonic
  | clear => ⟨"CLS", []⟩
  | ret => ⟨"RET", []⟩
  | jump nnn => ⟨"JP", [address nnn]⟩
  | call nnn => ⟨"CALL", [address nnn]⟩
  | skipIfByte x kk => ⟨"SE", [register x, byte kk]⟩
  | skipUnlessByte x kk => ⟨"SNE", [register x, byte kk]⟩
  | skipIfSame x y => ⟨"SE", [register x, register y]⟩
  | skipUnlessSame x y => ⟨"SNE", [register x, register y]⟩
  | setByte x kk => ⟨"LD", [register x, byte kk]⟩
  | addByte x kk => ⟨"ADD", [register x, byte kk]⟩
  | copy x y => ⟨"LD", [register x, register y]⟩
  | or x y => ⟨"OR", [register x, register y]⟩
  | and x y => ⟨"AND", [register x, register y]⟩
  | xor x y => ⟨"XOR", [register x, register y]⟩
  | add x y => ⟨"ADD", [register x, register y]⟩
  | subtract x y => ⟨"SUB", [register x, register y]⟩
  | shiftRight x => ⟨"SHR", [register x]⟩
  | subtractFrom x y => ⟨"SUBN", [register x, register y]⟩
  | shiftLeft x => ⟨"SHL", [register x]⟩
  | setIndex nnn => ⟨"LD", [index, address nnn]⟩
  | jumpFrom nnn => ⟨"JP", [register 0, address nnn]⟩
  | random x kk => ⟨"RND", [register x, byte kk]⟩
  | draw x y n => ⟨"DRW", [register x, register y, count n]⟩
  | skipIfKey x => ⟨"SKP", [register x]⟩
  | skipUnlessKey x => ⟨"SKNP", [register x]⟩
  | readDelay x => ⟨"LD", [register x, delay]⟩
  | awaitKey x => ⟨"LD", [register x, key]⟩
  | setDelay x => ⟨"LD", [delay, register x]⟩
  | setSound x => ⟨"LD", [sound, register x]⟩
  | addIndex x => ⟨"ADD", [index, register x]⟩
  | pointGlyph x => ⟨"LD", [glyph, register x]⟩
  | storeDecimal x => ⟨"LD", [decimal, register x]⟩
  | save x => ⟨"LD", [atIndex, register x]⟩
  | restore x => ⟨"LD", [register x, atIndex]⟩

/-- The assembler line of an instruction. -/
def text (ins : Instruction) : String := ins.mnemonic.text

end Instruction

/-- The line for a word: its instruction, or the fault that it raises. -/
def disassemble (word : UInt16) : String :=
  match Instruction.decode word with
  | .ok ins => ins.text
  | .error fault => fault.message

/-- The lines for `count` words that follow one another in number, from `start` on. -/
def listing (start : UInt16) (count : Nat) : List String :=
  (List.range count).map fun k => disassemble (start + .ofNat k)

end Chip8
