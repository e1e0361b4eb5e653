import Chip8.Keypad.KeySet
import Chip8.Machine.RandomSource
import Chip8.Machine.Registers
import Chip8.Machine.ReturnStack
import Chip8.Machine.Timers
import Chip8.Memory.Basic
import Chip8.Picture.Frame

/-!
# The machine's state

A `Machine` is everything that a program can change: memory, registers, return stack, timers,
the picture, the wait for a key and the place in the random stream. Displays and keypads are
outside of it.
-/

namespace Chip8

/-- The state of the machine. -/
structure Machine where
  /-- RAM. -/
  memory : Memory
  /-- V0 to VF, the index register and the program counter. -/
  registers : Registers := {}
  /-- The return addresses. -/
  stack : ReturnStack := .empty
  /-- The delay and sound timers. -/
  timers : Timers := {}
  /-- The picture. -/
  frame : Frame := .blank
  /-- The picture has been drawn on since a display last took it. -/
  redraw : Bool := false
  /-- During a wait for a key, the keys that have been down since it started. -/
  keyWait : Option KeySet := none
  /-- Where random bytes come from. -/
  random : RandomSource

namespace Machine

/-- The machine with a memory image, ready to run, its random bytes taken from a seed. -/
def boot (memory : Memory) (seed : UInt64) : Machine :=
  { memory, random := .ofSeed seed }

/-- What a register holds. -/
def v (m : Machine) (r : Register) : UInt8 := m.registers.get r

/-- The machine with a register set. -/
def setV (m : Machine) (r : Register) (b : UInt8) : Machine :=
  { m with registers := m.registers.set r b }

/-- The machine with VF set to one or zero. -/
def setFlag (m : Machine) (on : Bool) : Machine :=
  { m with registers := m.registers.setFlag on }

/-- The machine with the index register set. -/
def setIndex (m : Machine) (addr : UInt16) : Machine :=
  { m with registers := { m.registers with index := addr } }

/-- The machine with the program counter set. -/
def goTo (m : Machine) (pc : UInt16) : Machine :=
  { m with registers := { m.registers with pc } }

/-- One sixtieth of a second passes. -/
def tick (m : Machine) : Machine := { m with timers := m.timers.tick }

/-- `n` sixtieths of a second pass. -/
def ticks (n : Nat) (m : Machine) : Machine := Nat.repeat tick n m

variable (m : Machine) (r q : Register) (b : UInt8) (on : Bool)

/-- Setting a register changes no other. -/
theorem v_setV : (m.setV r b).v q = if r = q then b else m.v q := m.registers.get_set r q b

/-- A register holds what it has been set to. -/
@[simp] theorem v_setV_self : (m.setV r b).v r = b := m.registers.get_set_self r b

/-- Setting the flag changes VF only. -/
theorem v_setFlag :
    (m.setFlag on).v q = if q = .flag then (if on then 1 else 0) else m.v q :=
  m.registers.get_setFlag q on

/-- Time leaves everything but the timers alone. -/
theorem tick_eq : m.tick = { m with timers := m.timers.tick } := rfl

/-- One tick more is the last. -/
theorem ticks_succ (n : Nat) : m.ticks (n + 1) = (m.ticks n).tick := rfl

/-- However often time passes, it leaves everything but the timers alone. -/
theorem ticks_eq (n : Nat) : m.ticks n = { m with timers := m.timers.ticks n } := by
  induction n with
  | zero => rfl
  | succ n ih => rw [ticks_succ, ih, tick_eq, Timers.ticks_succ]

end Machine

end Chip8
