import Chip8.Instruction.Encoding
import Chip8.Keypad.Waiting
import Chip8.Machine.Basic
import Chip8.Picture.Drawing

/-!
# Executing instructions

`Machine.fetch` reads the instruction at the program counter. `Machine.execute` says what an
instruction does: an `Effect` with the new state and where the program goes on, or the reason
why it did not complete. It says nothing about the state that such an instruction leaves behind;
`Machine.executeM` does, which goes through the same instructions in place.

Executing an instruction does not move the program counter; `Flow.target` tells where it goes.
-/

namespace Chip8

/-- Where the program goes on. -/
inductive Flow where
  /-- At the following instruction. -/
  | next
  /-- After the following instruction. -/
  | skip
  /-- At an address. -/
  | jump (addr : UInt16)
  /-- Nowhere yet: the instruction waits for a key and is executed again. -/
  | wait
  deriving DecidableEq

namespace Flow

/-- Skip if a condition holds. -/
def skipIf (condition : Bool) : Flow := if condition then skip else next

/-- The program counter after an instruction at `pc`; instructions are two bytes long. -/
def target (pc : UInt16) : Flow → UInt16
  | next => pc + 2
  | skip => pc + 4
  | jump addr => addr
  | wait => pc

/-- The following instruction's address does not wrap near the end of memory. -/
theorem toNat_target_next {pc : UInt16} (h : pc.toNat + 2 < 0x10000) :
    (next.target pc).toNat = pc.toNat + 2 := by
  rw [target, UInt16.toNat_add]
  exact Nat.mod_eq_of_lt h

/-- Nor does the one after it. -/
theorem toNat_target_skip {pc : UInt16} (h : pc.toNat + 4 < 0x10000) :
    (skip.target pc).toNat = pc.toNat + 4 := by
  rw [target, UInt16.toNat_add]
  exact Nat.mod_eq_of_lt h

end Flow

/-- What a completed instruction does. -/
structure Effect where
  /-- The state afterwards, with the program counter still where it was. -/
  machine : Machine
  /-- Where the program goes on. -/
  flow : Flow := .next
  /-- The keys that were looked at, in order. -/
  asked : List Key := []
  /-- A wait for a key started. -/
  waitBegan : Bool := false

namespace Machine

/-- The register that an operand names. -/
def register (operand : UInt8) : Except Stop Register :=
  Stop.ofDefect (.noSuchRegister operand) (Register.ofByte? operand)

/-- The key that a register's value names. -/
def keyOf (value : UInt8) : Except Stop Key :=
  match Key.ofByte? value with
  | some key => .ok key
  | none => .error (.fault (.invalidKey value))

/-- An operation on two registers whose result goes to the first, without a flag. -/
def combine (m : Machine) (x y : UInt8) (op : UInt8 → UInt8 → UInt8) : Except Stop Effect := do
  let x ← register x
  let y ← register y
  return { machine := m.setV x (op (m.v x) (m.v y)) }

/-- An operation on two registers whose result goes to the first and whose flag goes to VF. The
flag is written last, so it wins where the result goes to VF too. -/
def combineFlagged (m : Machine) (x y : UInt8) (op : UInt8 → UInt8 → UInt8 × Bool) :
    Except Stop Effect := do
  let x ← register x
  let y ← register y
  let (result, flag) := op (m.v x) (m.v y)
  return { machine := (m.setV x result).setFlag flag }

/-- The sum, and whether it carried. -/
def addCarry (a b : UInt8) : UInt8 × Bool := (a + b, 255 < a.toNat + b.toNat)

/-- The difference, and whether nothing was borrowed. -/
def subtractNoBorrow (a b : UInt8) : UInt8 × Bool := (a - b, b ≤ a)

/-- Half the value, and whether the bit that fell out was set. -/
def halve (a : UInt8) : UInt8 × Bool := (a / 2, a % 2 = 1)

/-- Twice the value, and whether the bit that fell out was set. -/
def double (a : UInt8) : UInt8 × Bool := (a + a, 128 ≤ a)

/-- The three decimal digits of a byte. -/
def decimalDigits (b : UInt8) : List UInt8 := [b / 100, b / 10 % 10, b % 10]

/-- Bytes are stored at the index register. The place handed out for them has to be as long as
they are. -/
def store (m : Machine) (data : List UInt8) : Except Stop Effect := do
  let addr := m.registers.index.toNat
  let place ← Stop.ofFault (m.memory.writable addr data.length)
  if place.length = data.length then
    return { machine := { m with memory := ⟨overwrite m.memory.bytes addr data⟩ } }
  else throw (.defect .lengthMismatch)

/-- What an instruction does while `keys` are down. -/
def execute (keys : KeySet) (ins : Instruction) (m : Machine) : Except Stop Effect :=
  match ins with
  | .clear => return { machine := { m with frame := .blank, redraw := true } }
  | .ret => do
    let (addr, stack) ← Stop.ofFault m.stack.pop
    return { machine := { m with stack }, flow := .jump addr }
  | .jump nnn => return { machine := m, flow := .jump nnn }
  | .call nnn => do
    let stack ← Stop.ofFault (m.stack.push (m.registers.pc + 2))
    return { machine := { m with stack }, flow := .jump nnn }
  | .skipIfByte x kk => do
    let x ← register x
    return { machine := m, flow := .skipIf (m.v x == kk) }
  | .skipUnlessByte x kk => do
    let x ← register x
    return { machine := m, flow := .skipIf (m.v x != kk) }
  | .skipIfSame x y => do
    let x ← register x
    let y ← register y
    return { machine := m, flow := .skipIf (m.v x == m.v y) }
  | .skipUnlessSame x y => do
    let x ← register x
    let y ← register y
    return { machine := m, flow := .skipIf (m.v x != m.v y) }
  | .setByte x kk => do
    let x ← register x
    return { machine := m.setV x kk }
  | .addByte x kk => do
    let x ← register x
    return { machine := m.setV x (m.v x + kk) }
  | .copy x y => m.combine x y fun _ b => b
  | .or x y => m.combine x y (· ||| ·)
  | .and x y => m.combine x y (· &&& ·)
  | .xor x y => m.combine x y (· ^^^ ·)
  | .add x y => m.combineFlagged x y addCarry
  | .subtract x y => m.combineFlagged x y subtractNoBorrow
  | .subtractFrom x y => m.combineFlagged x y fun a b => subtractNoBorrow b a
  | .shiftRight x => m.combineFlagged x x fun a _ => halve a
  | .shiftLeft x => m.combineFlagged x x fun a _ => double a
  | .setIndex nnn => return { machine := m.setIndex nnn }
  | .jumpFrom nnn =>
    -- the sum may lie past the end of memory; the next fetch finds that out
    if nnn.toNat + (m.v Register.first).toNat < 0x10000 then
      return { machine := m, flow := .jump (nnn + (m.v Register.first).toUInt16) }
    else throw (.defect .addressOverflow)
  | .random x kk => do
    let x ← register x
    let (byte, random) := m.random.next
    return { machine := { m with random }.setV x (byte &&& kk) }
  | .draw x y n => do
    let x ← register x
    let y ← register y
    let rows ← Stop.ofFault (m.memory.read m.registers.index.toNat n.toNat)
    let drawing := m.frame.drawSprite (m.v x).toNat (m.v y).toNat rows
    if drawing.overflowed then throw (.defect .coordinateOverflow)
    else return { machine :=
      { m with frame := drawing.frame, redraw := true }.setFlag drawing.erased }
  | .skipIfKey x => do
    let x ← register x
    let key ← keyOf (m.v x)
    return { machine := m, flow := .skipIf (key ∈ keys), asked := [key] }
  | .skipUnlessKey x => do
    let x ← register x
    let key ← keyOf (m.v x)
    return { machine := m, flow := .skipIf (key ∉ keys), asked := [key] }
  | .readDelay x => do
    let x ← register x
    return { machine := m.setV x m.timers.delay }
  | .awaitKey x => do
    let x ← register x
    let asked := List.finRange 16
    match look m.keyWait keys with
    | .begins held =>
      return { machine := { m with keyWait := some held }, flow := .wait, asked,
               waitBegan := true }
    | .goesOn held =>
      return { machine := { m with keyWait := some held }, flow := .wait, asked }
    | .ends key => return { machine := { m with keyWait := none }.setV x key.toByte, asked }
  | .setDelay x => do
    let x ← register x
    return { machine := { m with timers := { m.timers with delay := m.v x } } }
  | .setSound x => do
    let x ← register x
    return { machine := { m with timers := { m.timers with sound := m.v x } } }
  | .addIndex x => do
    let x ← register x
    return { machine := m.setIndex (m.registers.index + (m.v x).toUInt16) }
  | .pointGlyph x => do
    let x ← register x
    let addr ← Stop.ofDefect .addressOverflow (Glyphs.address? (m.v x))
    return { machine := m.setIndex addr }
  | .storeDecimal x => do
    let x ← register x
    m.store (decimalDigits (m.v x))
  | .save x => do
    let x ← register x
    m.store (m.registers.upTo x)
  | .restore x => do
    let x ← register x
    let bytes ← Stop.ofFault (m.memory.read m.registers.index.toNat (x.val + 1))
    let registers ← Stop.ofDefect .lengthMismatch (m.registers.setUpTo? x bytes)
    return { machine := { m with registers } }

/-- The instruction at the program counter, which has to be even and inside the program area. -/
def fetch (m : Machine) : Except Fault Instruction :=
  let pc := m.registers.pc.toNat
  if pc < 0x200 ∨ pc % 2 = 1 ∨ 4096 ≤ pc + 1 then .error .badProgramCounter
  else m.memory.word pc >>= Instruction.decode

/-! ## Operands and words in range -/

/-- An operand below sixteen names a register. -/
theorem register_eq_ok {operand : UInt8} (h : operand < 16) :
    register operand = .ok ⟨operand.toNat, UInt8.lt_iff_toNat_lt.1 h⟩ := by
  rw [register, Register.ofByte?_eq_some h, Stop.ofDefect_some]

/-- The number of a register, as an operand, names it. -/
theorem register_ofNat (r : Register) : register (.ofNat r) = .ok r := by
  have hnum : (UInt8.ofNat r).toNat = r.val := by
    rw [UInt8.toNat_ofNat']
    omega
  have hlt : UInt8.ofNat r < 16 := by
    rw [UInt8.lt_iff_toNat_lt, hnum]
    exact r.isLt
  rw [register_eq_ok hlt]
  exact congrArg Except.ok (Fin.ext hnum)

/-- A value below sixteen names a key. -/
theorem keyOf_eq_ok {value : UInt8} (h : value.toNat < 16) :
    keyOf value = .ok ⟨value.toNat, h⟩ := by
  simp [keyOf, Key.ofByte?, h]

/-- A value from sixteen on names none. -/
theorem keyOf_eq_error {value : UInt8} (h : 16 ≤ value.toNat) :
    keyOf value = .error (.fault (.invalidKey value)) := by
  simp [keyOf, Key.ofByte?, Nat.not_lt.2 h]

variable (m : Machine)

/-- An odd program counter, or one outside the program area, is refused. -/
theorem fetch_eq_error
    (h : m.registers.pc.toNat < 0x200 ∨ m.registers.pc.toNat % 2 = 1 ∨
      4096 ≤ m.registers.pc.toNat + 1) : m.fetch = .error .badProgramCounter := by
  simp only [fetch, if_pos h]

/-- At any other program counter a word is read and decoded. -/
theorem fetch_eq_bind (low : 0x200 ≤ m.registers.pc.toNat)
    (even : m.registers.pc.toNat % 2 = 0) (high : m.registers.pc.toNat + 1 < 4096) :
    m.fetch = m.memory.word m.registers.pc.toNat >>= Instruction.decode := by
  have h : ¬ (m.registers.pc.toNat < 0x200 ∨ m.registers.pc.toNat % 2 = 1 ∨
      4096 ≤ m.registers.pc.toNat + 1) := by omega
  simp only [fetch, if_neg h]

/-- The word is there. -/
theorem fetch_eq_decode (high : m.registers.pc.toNat + 1 < 4096)
    (low : 0x200 ≤ m.registers.pc.toNat) (even : m.registers.pc.toNat % 2 = 0) :
    m.fetch = Instruction.decode
      (wordOfBytes m.memory.bytes[m.registers.pc.toNat]
        m.memory.bytes[m.registers.pc.toNat + 1]) := by
  rw [fetch_eq_bind m low even high, Memory.word_eq_ok _ high]
  rfl

/-- The first instruction is looked for at `0x200`. -/
theorem fetch_boot (memory : Memory) (seed : UInt64) :
    (boot memory seed).fetch = memory.word 0x200 >>= Instruction.decode := by
  have hpc : (boot memory seed).registers.pc.toNat = 0x200 := rfl
  rw [fetch_eq_bind _ (by omega) (by omega) (by omega), hpc]
  rfl

end Machine

end Chip8
