import Chip8.Text.Hexadecimal

/-!
# What can go wrong

Four kinds of trouble, from the machine's own to the world's:

* `Fault`: a condition of the running program that stops the machine for good.
* `Defect`: a breach of one of the internal bounds. No program can cause one, and a terminal only
  by a report that no terminal sends; the operations tell of them so that this can be stated.
* `IoError`: a device or the file system refused.
* `Error`: what an operation of the whole machine reports. A fault appears here together with
  the address of the instruction that raised it.

Each has one text, given by its `message`.
-/

namespace Chip8

/-- A condition that stops the machine. Memory, stack and decoder raise faults without knowing
where the program counter is. -/
inductive Fault where
  /-- The word encodes no instruction. -/
  | unknownInstruction (word : UInt16)
  /-- A call with all sixteen return addresses in use. -/
  | stackOverflow
  /-- A return with no return address left. -/
  | stackUnderflow
  /-- An access that runs past the end of RAM; `addr` is the first byte that does not exist. -/
  | addressOutOfRange (addr : Nat)
  /-- A write that starts below the program area. -/
  | reservedWrite (addr : Nat)
  /-- The program counter is odd or outside the program area. -/
  | badProgramCounter
  /-- A key test on a value that names no key. -/
  | invalidKey (key : UInt8)
  deriving DecidableEq

/-- The text of a fault; words and addresses are in marked base sixteen. -/
def Fault.message : Fault → String
  | unknownInstruction word => "unknown instruction " ++ Hexadecimal.marked 6 word.toNat
  | stackOverflow => "stack overflow"
  | stackUnderflow => "stack underflow"
  | addressOutOfRange addr =>
    "memory access at " ++ Hexadecimal.marked 6 addr ++ " is outside of RAM"
  | reservedWrite addr =>
    "write to reserved interpreter memory at " ++ Hexadecimal.marked 5 addr
  | badProgramCounter => "program counter left program memory"
  | invalidKey key => "no such key " ++ Hexadecimal.marked 4 key.toNat

/-- A breach of an internal bound. -/
inductive Defect where
  /-- An instruction names a register past VF. -/
  | noSuchRegister (register : UInt8)
  /-- A computed jump target does not fit in sixteen bits. -/
  | addressOverflow
  /-- A screen coordinate does not fit in 64 bits. -/
  | coordinateOverflow
  /-- A block of bytes does not have the length of the place it goes to. -/
  | lengthMismatch
  /-- A terminal names a column or row zero, where they are counted from one. -/
  | noSuchPlace
  deriving DecidableEq

/-- Why an instruction did not complete. -/
inductive Stop where
  | fault (f : Fault)
  | defect (d : Defect)
  deriving DecidableEq

/-- A step that can only fault, as a step that can also meet a defect. -/
def Stop.ofFault {α : Type} : Except Fault α → Except Stop α
  | .ok a => .ok a
  | .error f => .error (.fault f)

/-- A step that is undefined exactly when a bound is breached. -/
def Stop.ofDefect {α : Type} (d : Defect) : Option α → Except Stop α
  | some a => .ok a
  | none => .error (.defect d)

/-- A step that does not fault goes on. -/
@[simp] theorem Stop.ofFault_ok {α : Type} (a : α) : ofFault (.ok a) = .ok a := rfl

/-- A fault stays a fault. -/
@[simp] theorem Stop.ofFault_error {α : Type} (f : Fault) :
    ofFault (.error f : Except Fault α) = .error (.fault f) := rfl

/-- Only a step that does not fault goes on. -/
theorem Stop.ofFault_eq_ok {α : Type} {result : Except Fault α} {a : α} :
    ofFault result = .ok a ↔ result = .ok a := by
  cases result with
  | ok b => rw [ofFault_ok, Except.ok.injEq, Except.ok.injEq]
  | error f => exact iff_of_false (fun h => nomatch h) (fun h => nomatch h)

/-- A step that is defined goes on. -/
@[simp] theorem Stop.ofDefect_some {α : Type} (d : Defect) (a : α) :
    ofDefect d (some a) = .ok a := rfl

/-- One that is not meets the defect. -/
@[simp] theorem Stop.ofDefect_none {α : Type} (d : Defect) :
    ofDefect d (none : Option α) = .error (.defect d) := rfl

/-- A refusal of the world outside the machine. -/
inductive IoError where
  /-- The operating system's error number, its kind and its text. -/
  | system (code : Nat) (kind text : String)
  /-- A device or a reader explains itself in words. -/
  | device (text : String)
  deriving DecidableEq

namespace IoError

/-- The file does not exist. -/
def missingFile : IoError := system 2 "NotFound" "No such file or directory"

/-- The path names a directory. -/
def directory : IoError := system 21 "IsADirectory" "Is a directory"

/-- The text of an error; the operating system's errors end with their number. -/
def message : IoError → String
  | system code _ text => s!"{text} (os error {code})"
  | device text => text

end IoError

/-- What an operation of the whole machine reports. -/
inductive Error where
  /-- The program image is longer than the program area. -/
  | programTooLarge (size limit : Nat)
  /-- The instruction rate, in instructions per second, is outside the supported range. -/
  | invalidRate (rate lowest highest : Nat)
  /-- The world outside refused. -/
  | io (e : IoError)
  /-- The instruction at `pc` raised a fault. -/
  | fatal (pc : UInt16) (fault : Fault)
  deriving DecidableEq

/-- The text of an error. -/
def Error.message : Error → String
  | programTooLarge size limit => s!"program is {size} bytes, at most {limit} fit in memory"
  | invalidRate rate lowest highest =>
    s!"instruction rate {rate}Hz is outside {lowest}..={highest}Hz"
  | io e => e.message
  | fatal pc fault => fault.message ++ " at pc " ++ Hexadecimal.marked 5 pc.toNat

end Chip8
