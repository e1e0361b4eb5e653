import Chip8.Display.Recorder
import Chip8.Memory.Program
import Chip8.Proofs.Machine.FaultConditions

/-!
# Arithmetic with a flag is exact

Five instructions set one register to a result and then VF to a flag: a sum and its carry, a difference
and whether it went without a borrow (either way round), and the two shifts with the bit that falls out.
Result and flag together lose nothing: they give back the operands' exact sum, difference, half or
double, as natural numbers.

Operands may coincide, with each other and with VF. Both are read before anything is written, and the
flag is written last, so that it is all that is left where the result goes to VF as well.

* `Flagged` names the five, `Flagged.word` is the word of one on two registers.
* `FlagLaw` and `ResultLaw` tell flag and result in natural numbers; `Computes` tells the registers
  after an operation by those before.
* `laws_apply` is about two bytes, `computes_written` adds the order in which result and flag are
  written.
* `flagged_arithmetic_exact` says so of every execution and every cycle.
-/

namespace Chip8

/-- An operation that sets VF after its result. -/
inductive Flagged where
  /-- `8xy4` -/
  | add
  /-- `8xy5` -/
  | subtract
  /-- `8xy6` -/
  | shiftRight
  /-- `8xy7` -/
  | subtractFrom
  /-- `8xyE` -/
  | shiftLeft

namespace Flagged

/-- What the words of the operation end in. -/
def lastNibble : Flagged → Nat
  | add => 0x4
  | subtract => 0x5
  | shiftRight => 0x6
  | subtractFrom => 0x7
  | shiftLeft => 0xE

/-- The word of the operation on two registers. A shift has a place for the second one as well. -/
def word (op : Flagged) (x y : Register) : UInt16 :=
  Instruction.wordOfNibbles 0x8 x.val y.val op.lastNibble

/-- The instruction that the word is read as. -/
def instruction (x y : UInt8) : Flagged → Instruction
  | add => .add x y
  | subtract => .subtract x y
  | shiftRight => .shiftRight x
  | subtractFrom => .subtractFrom x y
  | shiftLeft => .shiftLeft x

/-- Result and flag for the bytes in the two registers. -/
def apply (a b : UInt8) : Flagged → UInt8 × Bool
  | add => Machine.addCarry a b
  | subtract => Machine.subtractNoBorrow a b
  | shiftRight => Machine.halve a
  | subtractFrom => Machine.subtractNoBorrow b a
  | shiftLeft => Machine.double a

/-- The machine with the result written to Vx, and then the flag to VF. -/
def written (op : Flagged) (x y : Register) (m : Machine) : Machine :=
  (m.setV x (op.apply (m.v x) (m.v y)).1).setFlag (op.apply (m.v x) (m.v y)).2

/-! ## The laws -/

/-- What the flag of an operation on `a` and `b` has to be. -/
def FlagLaw (a b flag : Nat) : Flagged → Prop
  | add => flag = 1 ↔ 255 < a + b
  | subtract => flag = 1 ↔ b ≤ a
  | shiftRight => flag = a % 2
  | subtractFrom => flag = 1 ↔ a ≤ b
  | shiftLeft => flag = 1 ↔ 128 ≤ a

/-- What its result has to be, given the flag. -/
def ResultLaw (a b flag result : Nat) : Flagged → Prop
  | add => result + 256 * flag = a + b
  | subtract => result + b = a + 256 * (1 - flag)
  | shiftRight => a = 2 * result + flag
  | subtractFrom => result + a = b + 256 * (1 - flag)
  | shiftLeft => 2 * a = result + 256 * flag

/-- The registers of `m'` are those of `m` after the operation on Vx and Vy. -/
structure Computes (op : Flagged) (x y : Register) (m m' : Machine) : Prop where
  /-- The flag is zero or one. -/
  flag_le : (m'.v .flag).toNat ≤ 1
  /-- It is the operands' flag, whichever register the result goes to. -/
  flag : op.FlagLaw (m.v x).toNat (m.v y).toNat (m'.v .flag).toNat
  /-- The result is the operands' result, unless the flag has replaced it. -/
  result : x ≠ .flag →
    op.ResultLaw (m.v x).toNat (m.v y).toNat (m'.v .flag).toNat (m'.v x).toNat
  /-- No other register changes. -/
  others : ∀ q, q ≠ x → q ≠ .flag → m'.v q = m.v q
  /-- Neither does the index register. -/
  index : m'.registers.index = m.registers.index

/-! ## Two bytes -/

section Bytes

open Machine

variable (a b : UInt8)

/-- A sum and its carry give the sum back. -/
theorem addCarry_exact :
    ((addCarry a b).2.toNat = 1 ↔ 255 < a.toNat + b.toNat) ∧
      (addCarry a b).1.toNat + 256 * (addCarry a b).2.toNat = a.toNat + b.toNat := by
  have ha := a.toNat_lt
  have hb := b.toNat_lt
  by_cases hcarry : 255 < a.toNat + b.toNat
  · simp [addCarry, hcarry, UInt8.toNat_add]
    omega
  · simp [addCarry, hcarry, UInt8.toNat_add]
    omega

/-- A difference, and 256 more if something was borrowed, give the difference back. -/
theorem subtractNoBorrow_exact :
    ((subtractNoBorrow a b).2.toNat = 1 ↔ b.toNat ≤ a.toNat) ∧
      (subtractNoBorrow a b).1.toNat + b.toNat =
        a.toNat + 256 * (1 - (subtractNoBorrow a b).2.toNat) := by
  have ha := a.toNat_lt
  have hb := b.toNat_lt
  by_cases hle : b.toNat ≤ a.toNat
  · simp [subtractNoBorrow, UInt8.le_iff_toNat_le, hle]
  · simp [subtractNoBorrow, UInt8.le_iff_toNat_le, hle, UInt8.toNat_sub]
    omega

/-- A half and the bit that falls out give the byte back. -/
theorem halve_exact :
    (halve a).2.toNat = a.toNat % 2 ∧ a.toNat = 2 * (halve a).1.toNat + (halve a).2.toNat := by
  rcases Nat.mod_two_eq_zero_or_one a.toNat with hbit | hbit
  · simp [halve, ← UInt8.toNat_inj, hbit]
    omega
  · simp [halve, ← UInt8.toNat_inj, hbit]
    omega

/-- A double and the bit that falls out give the byte back. -/
theorem double_exact :
    ((double a).2.toNat = 1 ↔ 128 ≤ a.toNat) ∧
      2 * a.toNat = (double a).1.toNat + 256 * (double a).2.toNat := by
  have ha := a.toNat_lt
  by_cases hbit : 128 ≤ a.toNat
  · simp [double, UInt8.le_iff_toNat_le, hbit, UInt8.toNat_add]
    omega
  · simp [double, UInt8.le_iff_toNat_le, hbit, UInt8.toNat_add]
    omega

end Bytes

/-- **Result and flag of two bytes are exact.** -/
theorem laws_apply (op : Flagged) (a b : UInt8) :
    op.FlagLaw a.toNat b.toNat (op.apply a b).2.toNat ∧
      op.ResultLaw a.toNat b.toNat (op.apply a b).2.toNat (op.apply a b).1.toNat := by
  cases op with
  | add => exact addCarry_exact a b
  | subtract => exact subtractNoBorrow_exact a b
  | shiftRight => exact halve_exact a
  | subtractFrom => exact subtractNoBorrow_exact b a
  | shiftLeft => exact double_exact a

/-! ## Two registers -/

/-- **What is written is what the operands tell**: the flag stands in VF whatever the result's register
is, and the result stands in any other register. -/
theorem computes_written (op : Flagged) (x y : Register) (m : Machine) :
    op.Computes x y m (op.written x y m) := by
  obtain ⟨hflag, hresult⟩ := laws_apply op (m.v x) (m.v y)
  unfold written
  generalize op.apply (m.v x) (m.v y) = computed at hflag hresult
  obtain ⟨result, on⟩ := computed
  have hvf : (((m.setV x result).setFlag on).v .flag).toNat = on.toNat := by
    rw [Machine.v_setFlag, if_pos rfl]
    cases on <;> rfl
  refine ⟨?_, ?_, ?_, ?_, rfl⟩
  · rw [hvf]
    exact on.toNat_le
  · rwa [hvf]
  · intro hx
    rw [hvf, Machine.v_setFlag, if_neg hx, Machine.v_setV_self]
    exact hresult
  · intro q hqx hq
    rw [Machine.v_setFlag, if_neg hq, Machine.v_setV, if_neg (Ne.symm hqx)]

/-- **Nothing else has a say in it**: equal bytes in the two registers make equal flags and results. -/
theorem Computes.congr {op : Flagged} {x y : Register} {m n m' n' : Machine}
    (hm : op.Computes x y m m') (hn : op.Computes x y n n') (hx : m.v x = n.v x)
    (hy : m.v y = n.v y) : m'.v .flag = n'.v .flag ∧ m'.v x = n'.v x := by
  have hmle := hm.flag_le
  have hnle := hn.flag_le
  have hmflag := hm.flag
  have hnflag := hn.flag
  rw [hx, hy] at hmflag
  have hflag : (m'.v .flag).toNat = (n'.v .flag).toNat := by
    cases op <;> simp only [FlagLaw] at hmflag hnflag <;> omega
  refine ⟨UInt8.toNat_inj.1 hflag, ?_⟩
  by_cases hvf : x = .flag
  · rw [hvf]
    exact UInt8.toNat_inj.1 hflag
  · have hmresult := hm.result hvf
    have hnresult := hn.result hvf
    rw [hx, hy, hflag] at hmresult
    apply UInt8.toNat_inj.1
    cases op <;> simp only [ResultLaw] at hmresult hnresult <;> omega

/-- The words of an operation are read as its instruction; a shift is read without the second
register. -/
theorem decode_word (op : Flagged) (x y : Register) :
    Instruction.decode (op.word x y) = .ok (op.instruction (.ofNat x) (.ofNat y)) := by
  have hx := x.isLt
  have hy := y.isLt
  cases op <;>
    simp [word, lastNibble, instruction, Instruction.decode, Instruction.fields_wordOfNibbles]

/-- Executing it writes result and flag. -/
theorem execute_instruction (op : Flagged) (x y : Register) (m : Machine) (keys : KeySet) :
    m.execute keys (op.instruction (.ofNat x) (.ofNat y)) =
      .ok { machine := op.written x y m } := by
  have hx := Machine.register_ofNat x
  have hy := Machine.register_ofNat y
  cases op with
  | add | subtract | subtractFrom =>
    rw [instruction, Machine.execute, Machine.combineFlagged_eq_ok hx hy]
    rfl
  | shiftRight | shiftLeft =>
    rw [instruction, Machine.execute, Machine.combineFlagged_eq_ok hx hx]
    rfl

end Flagged

namespace Vm

open Machine

/-- **Arithmetic with a flag is exact, with every aliasing.** For each of the five operations and any
two registers, the word of the operation is read as an instruction which, in any state of the machine,
executes and goes on to the next one. It leaves result and flag as they have to be for the bytes that
were in the two registers before, whether these are two registers or one, and whether VF is among them
or not, and nothing else has a say in it. Where the result goes to VF the flag stands there; registers
other than Vx and VF are as before. A cycle that finds the word does the same. -/
theorem flagged_arithmetic_exact (op : Flagged) (x y : Register) :
    ∃ ins, Instruction.decode (op.word x y) = .ok ins ∧
      (∀ (m : Machine) (keys : KeySet), ∃ m',
        m.execute keys ins = .ok { machine := m' } ∧ op.Computes x y m m') ∧
      (∀ m n m' n' : Machine, op.Computes x y m m' → op.Computes x y n n' →
        m.v x = n.v x → m.v y = n.v y → m'.v .flag = n'.v .flag ∧ m'.v x = n'.v x) ∧
      ∀ {δ : Type} (vm : Vm δ) (display : Display δ) (keys : KeySet),
        vm.machine.Finds (op.word x y) →
          (∀ pc fault, (vm.cycle display keys).1.outcome ≠ .failed (.fatal pc fault)) ∧
            op.Computes x y vm.machine (vm.cycle display keys).2.machine ∧
            (vm.cycle display keys).2.machine.registers.pc = vm.machine.registers.pc + 2 := by
  refine ⟨_, op.decode_word x y, ?_, ?_, ?_⟩
  · intro m keys
    exact ⟨_, op.execute_instruction x y m keys, op.computes_written x y m⟩
  · intro m n m' n' hm hn hx hy
    exact hm.congr hn hx hy
  · intro δ vm display keys hword
    have hfetch : vm.machine.fetch = .ok (op.instruction (.ofNat x) (.ofNat y)) :=
      hword.fetch.trans (op.decode_word x y)
    have hexec := op.execute_instruction x y vm.machine keys
    have hcomputes := op.computes_written x y vm.machine
    obtain ⟨redraw, screen, hafter⟩ := exists_commit display vm _
    rw [cycle_of_effect hfetch hexec]
    refine ⟨fun pc fault => commit_ne_fatal pc fault, ?_, ?_⟩
    · rw [hafter]
      exact ⟨hcomputes.flag_le, hcomputes.flag, hcomputes.result, hcomputes.others,
        hcomputes.index⟩
    · rw [hafter]
      rfl

/-- A machine with three in V0 and five in VF. -/
def threeAndFive (memory : Memory) : Vm Recorder :=
  ⟨((Machine.boot memory 0).setV .first 3).setV .flag 5, {}⟩

/-- Five taken from three, with VF as the operand: the five is read before the flag replaces it. -/
theorem flagged_arithmetic_exact_borrow :
    ∃ memory, Memory.ofProgram ⟨[[0x80, 0xF5]], none⟩ = .ok (2, memory) ∧
      (threeAndFive memory).machine.Finds (Flagged.subtract.word .first .flag) ∧
      let after := ((threeAndFive memory).cycle (Recorder.display []) .empty).2.machine
      (after.v .flag).toNat = 0 ∧ (after.v .first).toNat = 254 := by
  obtain ⟨memory, hload, hword⟩ := Memory.exists_ofProgram_word 0x80 0xF5
  have hpc : (threeAndFive memory).machine.registers.pc.toNat = 0x200 := rfl
  have hfinds : (threeAndFive memory).machine.Finds (Flagged.subtract.word .first .flag) :=
    finds_of_word (by omega) (by omega) (by omega) hword
  refine ⟨memory, hload, hfinds, ?_⟩
  intro after
  obtain ⟨-, -, -, -, hcycle⟩ := flagged_arithmetic_exact .subtract .first .flag
  obtain ⟨-, hcomputes, -⟩ := hcycle (threeAndFive memory) (Recorder.display []) .empty hfinds
  have hthree : ((threeAndFive memory).machine.v .first).toNat = 3 := rfl
  have hfive : ((threeAndFive memory).machine.v .flag).toNat = 5 := rfl
  have hle : (after.v .flag).toNat ≤ 1 := hcomputes.flag_le
  have hflag : (after.v .flag).toNat = 1 ↔ 5 ≤ 3 := hcomputes.flag
  have hresult : (after.v .first).toNat + 5 = 3 + 256 * (1 - (after.v .flag).toNat) :=
    hcomputes.result (by decide)
  omega

end Vm

end Chip8
