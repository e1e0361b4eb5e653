import Chip8.Machine.Execute

/-!
# When an instruction faults

`Machine.faultOf m ins` is the fault that executing `ins` in the state `m` raises, said without
executing it: an empty or full return stack, a register whose value names no key, a stretch of
memory that runs past the end or may not be written.

* The sums of an address and a length are natural numbers, so nothing here wraps.
* The condition looks at the return stack's depth, the registers and the index register, and at
  nothing else: `faultOf_congr`. In particular neither time nor the keypad can change it.
* `Machine.fault?` is the fault of the instruction at the program counter, which may also be that
  there is none.
-/

namespace Chip8.Machine

/-- The value of the register that an operand names. -/
def operand (m : Machine) (x : UInt8) : UInt8 := (m.registers.v[x.toNat]?).getD 0

/-- An operand below sixteen names the register of its number. -/
theorem operand_eq (m : Machine) {x : UInt8} (h : x.toNat < 16) :
    m.operand x = m.v ⟨x.toNat, h⟩ := by
  rw [operand, Vector.getElem?_eq_getElem h]
  rfl

/-- An operand names the register of its number. -/
theorem operand_eq_v (m : Machine) {x : UInt8} {r : Register} (h : x.toNat = r.val) :
    m.operand x = m.v r := by
  have hlt : x.toNat < 16 := h ▸ r.isLt
  rw [operand_eq m hlt]
  exact congrArg m.v (Fin.ext h)

/-- The fault of a read of `len` bytes at the index register. -/
def readFault? (m : Machine) (len : Nat) : Option Fault :=
  if 4096 < m.registers.index.toNat + len then some (Memory.outOfRange m.registers.index.toNat)
  else none

/-- The fault of a write of `len` bytes at the index register. -/
def storeFault? (m : Machine) (len : Nat) : Option Fault :=
  Memory.writeFault? m.registers.index.toNat len

/-- The fault of a key test on a value. -/
def keyFault? (value : UInt8) : Option Fault :=
  if 16 ≤ value.toNat then some (.invalidKey value) else none

/-- The fault that an instruction raises in a state, if it raises one. -/
def faultOf (m : Machine) : Instruction → Option Fault
  | .ret => if m.stack.depth = 0 then some .stackUnderflow else none
  | .call _ => if m.stack.depth = 16 then some .stackOverflow else none
  | .skipIfKey x | .skipUnlessKey x => keyFault? (m.operand x)
  | .draw _ _ n => m.readFault? n.toNat
  | .restore x => m.readFault? (x.toNat + 1)
  | .storeDecimal _ => m.storeFault? 3
  | .save x => m.storeFault? (x.toNat + 1)
  | _ => none

/-- States with the same registers and stack depth fault alike. -/
theorem faultOf_congr {m m' : Machine} (hr : m.registers = m'.registers)
    (hs : m.stack.depth = m'.stack.depth) (ins : Instruction) : m.faultOf ins = m'.faultOf ins := by
  cases ins <;> simp only [faultOf, operand, readFault?, storeFault?, hr, hs]

/-! ## The instruction at the program counter -/

/-- The fault that the next cycle raises, if it raises one. -/
def fault? (m : Machine) : Option Fault :=
  match m.fetch with
  | .error fault => some fault
  | .ok ins => m.faultOf ins

/-- Where no instruction is found, that is the fault to come. -/
theorem fault?_of_fetch_error {m : Machine} {fault : Fault} (h : m.fetch = .error fault) :
    m.fault? = some fault := by
  rw [fault?, h]

/-- Where one is found, it is the instruction's, if it raises one. -/
theorem fault?_of_fetch {m : Machine} {ins : Instruction} (h : m.fetch = .ok ins) :
    m.fault? = m.faultOf ins := by
  rw [fault?, h]

/-- Fetching looks at memory and the program counter only. -/
theorem fetch_congr {m m' : Machine} (hm : m.memory = m'.memory)
    (hr : m.registers = m'.registers) : m.fetch = m'.fetch := by
  unfold fetch
  rw [hm, hr]

/-- Whether a cycle faults depends on memory, the registers and the stack's depth only. -/
theorem fault?_congr {m m' : Machine} (hm : m.memory = m'.memory) (hr : m.registers = m'.registers)
    (hs : m.stack.depth = m'.stack.depth) : m.fault? = m'.fault? := by
  unfold fault?
  rw [fetch_congr hm hr]
  cases m'.fetch with
  | error fault => rfl
  | ok ins => exact faultOf_congr hr hs ins

/-- So it does not depend on the timers. -/
theorem fault?_timers (m : Machine) (timers : Timers) :
    { m with timers }.fault? = m.fault? :=
  fault?_congr rfl rfl rfl

end Chip8.Machine
