import Chip8.Instruction.Mnemonic

/-!
# The log

What the machine says while it works. Each message has a level and a text, written with a blank
between them.
-/

namespace Chip8

/-- A line of the log. -/
inductive Message where
  /-- A program of this many bytes was loaded. -/
  | loaded (size : Nat)
  /-- The instruction at an address is about to be executed. -/
  | executing (pc : UInt16) (ins : Instruction)
  /-- The instruction at an address starts to wait for a key. -/
  | waiting (pc : UInt16)
  /-- A run has reached its limit. -/
  | stopping (executed : Nat)
  /-- A run was halted. -/
  | halted (executed : Nat)
  /-- A run ends because a cycle failed. -/
  | failed (e : Error)
  deriving DecidableEq

/-- The line of a message. -/
def Message.text : Message → String
  | loaded size => s!"INFO loaded {size} byte program at 0x200"
  | executing pc ins => "TRACE " ++ Hexadecimal.marked 5 pc.toNat ++ ": " ++ ins.text
  | waiting pc => "DEBUG waiting for a key at " ++ Hexadecimal.marked 5 pc.toNat
  | stopping executed => s!"INFO stopping after {executed} instructions"
  | halted executed => s!"DEBUG halted after {executed} instructions"
  | failed e => "ERROR " ++ e.message

end Chip8
