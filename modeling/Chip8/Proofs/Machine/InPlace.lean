import Chip8.Machine.InPlace
import Chip8.Proofs.Machine.Execution

/-!
# An instruction that faults has changed nothing

Executed in place, an instruction reads and writes the machine step by step, and where it stops it
leaves what its steps have made of the machine. `run_executeM` says what that is: an instruction
whose operands are in range ends as `Machine.execute` tells, and if it stops it has not changed
anything yet, since each of its checks comes before its first change.

* `Ends` compares an execution in place with an outcome told at once.
* `Ends.inspect` is what a check does before any change: the instruction ends there with everything
  as it was, or goes on from the state that it found.
* The lemmas for the single steps come first, then the families of instructions, then all of them.
-/

namespace Chip8.Machine

open InPlace

variable {keys : KeySet} {m : Machine} {ins : Instruction} {x y : UInt8} {r q : Register}

/-- An execution in place from `m` ends with the outcome `result`, and with `m` as it was unless
that is a completion. -/
def Ends (act : EStateM Stop Machine Completion) (m : Machine) (result : Except Stop Effect) :
    Prop :=
  act.run m = allOrNothing m (result.map fun e => (e.completion, e.machine))

/-! ## Single steps -/

/-- A register in range is read. -/
theorem run_readV (hr : register x = .ok r) : (readV x).run m = .ok (m.v r) m := by
  rw [readV, run_inspect, hr]
  rfl

/-- A register in range is written. -/
theorem run_writeV (hr : register x = .ok r) (b : UInt8) :
    (writeV x b).run m = .ok () (m.setV r b) := by
  rw [writeV, EStateM.run_bind, run_inspect, hr]
  rfl

/-- A register in range is written, and then VF. -/
theorem run_writeFlagged (hr : register x = .ok r) (result : UInt8 × Bool) :
    (writeFlagged x result).run m = .ok () ((m.setV r result.1).setFlag result.2) := by
  rw [writeFlagged, EStateM.run_bind, run_writeV hr]
  rfl

/-- What a return stack refuses to do has not changed the machine. -/
theorem run_onStack {α : Type} {act : EStateM Fault ReturnStack α}
    {result : Except Fault (α × ReturnStack)}
    (h : act.run m.stack = allOrNothing m.stack result) :
    (onStack act).run m =
      allOrNothing m (Stop.ofFault (result.map fun r => (r.1, { m with stack := r.2 }))) := by
  rw [onStack, EStateM.run_adaptExcept, run_within rfl h]
  cases result with
  | ok r => rfl
  | error fault => rfl

/-! ## What an instruction does first -/

/-- An instruction goes on with the machine that it finds. -/
theorem Ends.get {act : Machine → EStateM Stop Machine Completion} {result : Except Stop Effect}
    (h : Ends (act m) m result) : Ends (MonadState.get >>= act) m result :=
  h

/-- It goes on with the value of a register in range. -/
theorem Ends.readV {act : UInt8 → EStateM Stop Machine Completion} {result : Except Stop Effect}
    (hr : register x = .ok r) (h : Ends (act (m.v r)) m result) :
    Ends (Machine.readV x >>= act) m result := by
  rw [Ends, EStateM.run_bind, run_readV hr]
  exact h

/-- It goes on with what a look has found. Where the look has found a reason to stop, nothing has
been changed. -/
theorem Ends.inspect {α : Type} {look : Machine → Except Stop α}
    {act : α → EStateM Stop Machine Completion} {next : α → Except Stop Effect}
    (h : ∀ a, look m = .ok a → Ends (act a) m (next a)) :
    Ends (InPlace.inspect look >>= act) m (look m >>= next) := by
  rw [Ends, EStateM.run_bind, run_inspect]
  cases hlook : look m with
  | ok a => exact h a hlook
  | error stop => rfl

/-! ## Families of instructions -/

/-- A byte goes to a register, and that is all. -/
theorem ends_writeV (hr : register x = .ok r) (b : UInt8) :
    Ends (do writeV x b; return {}) m (.ok { machine := m.setV r b }) := by
  rw [Ends, EStateM.run_bind, run_writeV hr]
  rfl

/-- An operation on two registers. -/
theorem ends_combineM (hr : register x = .ok r) (hq : register y = .ok q)
    (op : UInt8 → UInt8 → UInt8) : Ends (combineM x y op) m (m.combine x y op) := by
  rw [combine_eq_ok hr hq]
  exact .readV hr (.readV hq (ends_writeV hr _))

/-- An operation on two registers with a flag. -/
theorem ends_combineFlaggedM (hr : register x = .ok r) (hq : register y = .ok q)
    (op : UInt8 → UInt8 → UInt8 × Bool) :
    Ends (combineFlaggedM x y op) m (m.combineFlagged x y op) := by
  rw [combineFlagged_eq_ok hr hq]
  refine .readV hr (.readV hq ?_)
  rw [Ends, EStateM.run_bind, run_writeFlagged hr]
  rfl

/-- Bytes are stored where they may be written, and nothing is changed elsewhere. -/
theorem ends_storeM (m : Machine) (data : List UInt8) : Ends (storeM data) m (m.store data) := by
  have hwrite := Memory.run_writeM m.memory m.registers.index.toNat data
  rw [Ends, store_eq, storeM]
  simp only [EStateM.run_bind, EStateM.run_get]
  rw [run_within rfl hwrite]
  cases hf : m.storeFault? data.length with
  | some fault =>
    rw [Memory.write_eq_error m.memory hf]
    rfl
  | none =>
    rw [Memory.write_eq_ok m.memory hf]
    rfl

/-- A key is tested if the value names one. -/
theorem ends_testKeyM (hr : register x = .ok r) (test : Key → Bool) :
    Ends (testKeyM x test) m (do
      let key ← keyOf (m.v r)
      return { machine := m, flow := .skipIf (test key), asked := [key] }) := by
  refine .readV hr (.inspect ?_)
  intro key _
  rfl

/-- A sprite is drawn once its bytes have been read. -/
theorem ends_draw {n : UInt8} (hr : register x = .ok r) (hq : register y = .ok q)
    (hcols : (m.v r).toNat + 8 ≤ coordinateLimit)
    (hrows : (m.v q).toNat + n.toNat ≤ coordinateLimit) :
    Ends (executeM keys (.draw x y n)) m (m.execute keys (.draw x y n)) := by
  rw [execute, hr, hq]
  refine .readV hr (.readV hq (.inspect ?_))
  intro rows hread
  have hlen : rows.length = n.toNat := Memory.length_of_read (Stop.ofFault_eq_ok.1 hread)
  have hdone : (m.frame.drawSprite (m.v r).toNat (m.v q).toNat rows).overflowed = false :=
    Drawing.overflowed_sprite rfl hcols (by rwa [hlen])
  rw [Ends, drawM]
  simp only [EStateM.run_bind, EStateM.run_get, EStateM.run_modify, hdone]
  rfl

/-- A look at the keypad. -/
theorem ends_awaitKey (hr : register x = .ok r) :
    Ends (executeM keys (.awaitKey x)) m (m.execute keys (.awaitKey x)) := by
  rw [Ends, execute_awaitKey hr, executeM]
  simp only [EStateM.run_bind, EStateM.run_get]
  cases look m.keyWait keys with
  | begins held => rfl
  | goesOn held => rfl
  | ends key =>
    simp only [EStateM.run_bind, EStateM.run_modify, run_writeV hr]
    rfl

/-! ## Every instruction -/

/-- **An instruction executed in place ends as `execute` tells**, and if it stops the machine is as
it was. -/
theorem run_executeM (keys : KeySet) (h : m.InBounds ins) :
    (executeM keys ins).run m =
      allOrNothing m ((m.execute keys ins).map fun e => (e.completion, e.machine)) := by
  show Ends (executeM keys ins) m (m.execute keys ins)
  cases ins with
  | clear | jump _ | setIndex _ => rfl
  | ret =>
    rw [Ends, executeM, EStateM.run_bind, run_onStack m.stack.run_popM, execute]
    cases m.stack.pop with
    | ok taken => rfl
    | error fault => rfl
  | call nnn =>
    refine .get ?_
    rw [Ends, EStateM.run_bind, run_onStack (m.stack.run_pushM _), execute]
    cases m.stack.push (m.registers.pc + 2) with
    | ok stack => rfl
    | error fault => rfl
  | skipIfByte x kk | skipUnlessByte x kk =>
    obtain ⟨r, hr, -, -⟩ := h.exists_register (x := x) List.mem_cons_self
    rw [execute, hr]
    exact .readV hr rfl
  | skipIfSame x y | skipUnlessSame x y =>
    obtain ⟨r, hr, -, -⟩ := h.exists_register (x := x) List.mem_cons_self
    obtain ⟨q, hq, -, -⟩ := h.exists_register (x := y) (List.mem_cons_of_mem _ List.mem_cons_self)
    rw [execute, hr, hq]
    exact .readV hr (.readV hq rfl)
  | setByte x kk =>
    obtain ⟨r, hr, -, -⟩ := h.exists_register (x := x) List.mem_cons_self
    rw [execute, hr]
    exact ends_writeV hr kk
  | addByte x kk =>
    obtain ⟨r, hr, -, -⟩ := h.exists_register (x := x) List.mem_cons_self
    rw [execute, hr]
    exact .readV hr (ends_writeV hr _)
  | copy x y | or x y | and x y | xor x y =>
    obtain ⟨r, hr, -, -⟩ := h.exists_register (x := x) List.mem_cons_self
    obtain ⟨q, hq, -, -⟩ := h.exists_register (x := y) (List.mem_cons_of_mem _ List.mem_cons_self)
    exact ends_combineM hr hq _
  | add x y | subtract x y | subtractFrom x y =>
    obtain ⟨r, hr, -, -⟩ := h.exists_register (x := x) List.mem_cons_self
    obtain ⟨q, hq, -, -⟩ := h.exists_register (x := y) (List.mem_cons_of_mem _ List.mem_cons_self)
    exact ends_combineFlaggedM hr hq _
  | shiftRight x | shiftLeft x =>
    obtain ⟨r, hr, -, -⟩ := h.exists_register (x := x) List.mem_cons_self
    exact ends_combineFlaggedM hr hr _
  | jumpFrom nnn =>
    have hlt := h.target nnn rfl
    refine .get ?_
    rw [execute, if_pos hlt, if_pos hlt]
    rfl
  | random x kk =>
    obtain ⟨r, hr, -, -⟩ := h.exists_register (x := x) List.mem_cons_self
    rw [Ends, executeM, execute, hr]
    simp only [EStateM.run_bind, EStateM.run_get, EStateM.run_modify, run_writeV hr]
    rfl
  | draw x y n =>
    obtain ⟨r, hr, -, hv⟩ := h.exists_register (x := x) List.mem_cons_self
    obtain ⟨q, hq, -, hw⟩ := h.exists_register (x := y) (List.mem_cons_of_mem _ List.mem_cons_self)
    exact ends_draw hr hq (hv ▸ h.columns x y n rfl) (hw ▸ h.rows x y n rfl)
  | skipIfKey x | skipUnlessKey x =>
    obtain ⟨r, hr, -, -⟩ := h.exists_register (x := x) List.mem_cons_self
    rw [execute, hr]
    exact ends_testKeyM hr _
  | readDelay x =>
    obtain ⟨r, hr, -, -⟩ := h.exists_register (x := x) List.mem_cons_self
    rw [execute, hr]
    exact .get (ends_writeV hr _)
  | awaitKey x =>
    obtain ⟨r, hr, -, -⟩ := h.exists_register (x := x) List.mem_cons_self
    exact ends_awaitKey hr
  | setDelay x | setSound x | addIndex x =>
    obtain ⟨r, hr, -, -⟩ := h.exists_register (x := x) List.mem_cons_self
    rw [execute, hr]
    exact .readV hr rfl
  | pointGlyph x =>
    obtain ⟨r, hr, -, -⟩ := h.exists_register (x := x) List.mem_cons_self
    rw [execute, hr]
    exact .readV hr (.inspect fun _ _ => rfl)
  | storeDecimal x =>
    obtain ⟨r, hr, -, -⟩ := h.exists_register (x := x) List.mem_cons_self
    rw [execute, hr]
    exact .readV hr (ends_storeM m (decimalDigits (m.v r)))
  | save x =>
    obtain ⟨r, hr, -, -⟩ := h.exists_register (x := x) List.mem_cons_self
    rw [Ends, execute_save hr, executeM, EStateM.run_bind, run_inspect, hr]
    exact ends_storeM m (m.registers.upTo r)
  | restore x =>
    obtain ⟨r, hr, hx, -⟩ := h.exists_register (x := x) List.mem_cons_self
    rw [execute, executeM, hr, hx]
    exact .inspect fun _ _ => .inspect fun _ _ => rfl

end Chip8.Machine
