import Chip8.Cycle
import Chip8.Proofs.Machine.InPlace

/-!
# The ways in which a cycle goes

A cycle finds no instruction, or its instruction faults, or it completes and then waits, runs
on, shows the picture or is refused by the display. `Turn` lists the six with the report and the
state that each leaves, and `turn_cycle` says that there are no others. What a cycle preserves
is shown by going through `Turn`, without opening `cycle` again.

* `cycle_of_fault` and `cycle_of_effect`: the instruction is executed in place, and comes to what
  `Machine.execute` tells; if it faults, it has left everything as it was.
* `Turn.graceful`: a cycle reports a status, a fault at its program counter, or the display's own
  refusal.
* `fatal_iff`: a cycle raises a fault exactly if the state tells it, as `Machine.fault?` does.
-/

namespace Chip8

namespace Machine

/-- The instruction at the program counter is executed and completes. -/
structure Executes (keys : KeySet) (m : Machine) (ins : Instruction) (e : Effect) : Prop where
  fetched : m.fetch = .ok ins
  executed : m.execute keys ins = .ok e
  completes : Completes keys m ins e

/-- Where an instruction completes there is no fault to come. -/
theorem Executes.fault?_eq_none {keys : KeySet} {m : Machine} {ins : Instruction} {e : Effect}
    (h : Executes keys m ins e) : m.fault? = none := by
  rw [fault?_of_fetch h.fetched]
  cases hf : m.faultOf ins with
  | none => rfl
  | some fault =>
    have hx := (execute_eq_fault_iff keys (inBounds_of_fetch h.fetched)).2 hf
    rw [h.executed] at hx
    cases hx

end Machine

namespace Vm

variable {δ : Type}

/-- What a cycle reports whose instruction at `pc` completed. -/
def reportOf (pc : UInt16) (ins : Instruction) (e : Effect) (outcome : Outcome) : Report where
  outcome := outcome
  log := logOf pc ins e.waitBegan
  asked := e.asked

/-- The machine after an instruction, the program counter moved. -/
def advance (m : Machine) (e : Effect) : Machine := e.machine.goTo (e.flow.target m.registers.pc)

/-- Moving the program counter leaves the picture. -/
@[simp] theorem advance_frame (m : Machine) (e : Effect) :
    (advance m e).frame = e.machine.frame := rfl

/-- It leaves it due, or not. -/
@[simp] theorem advance_redraw (m : Machine) (e : Effect) :
    (advance m e).redraw = e.machine.redraw := rfl

/-- The ways in which a cycle goes. -/
inductive Turn (display : Display δ) (keys : KeySet) (vm : Vm δ) : Report × Vm δ → Prop where
  /-- There is no instruction at the program counter. -/
  | lost {fault : Fault} (h : vm.machine.fetch = .error fault) :
      Turn display keys vm ({ outcome := .failed (.fatal vm.machine.registers.pc fault) }, vm)
  /-- The instruction faults. -/
  | faults {ins : Instruction} {fault : Fault} (h : vm.machine.fetch = .ok ins)
      (hf : vm.machine.faultOf ins = some fault) :
      Turn display keys vm
        ({ outcome := .failed (.fatal vm.machine.registers.pc fault)
           log := logOf vm.machine.registers.pc ins false }, vm)
  /-- The instruction waits for a key. -/
  | waits {ins : Instruction} {e : Effect} (h : Machine.Executes keys vm.machine ins e)
      (hw : e.flow = .wait) :
      Turn display keys vm
        (reportOf vm.machine.registers.pc ins e (.completed .waiting),
          ⟨advance vm.machine e, vm.screen⟩)
  /-- The instruction completes, and no picture is due. -/
  | runs {ins : Instruction} {e : Effect} (h : Machine.Executes keys vm.machine ins e)
      (hw : e.flow ≠ .wait) (hr : e.machine.redraw = false) :
      Turn display keys vm
        (reportOf vm.machine.registers.pc ins e (.completed .ran),
          ⟨advance vm.machine e, vm.screen⟩)
  /-- It completes, a picture is due, and the display takes it. -/
  | shows {ins : Instruction} {e : Effect} (h : Machine.Executes keys vm.machine ins e)
      (hw : e.flow ≠ .wait) (hr : e.machine.redraw = true) {screen : δ}
      (hp : display.present e.machine.frame vm.screen = (.ok (), screen)) :
      Turn display keys vm
        (reportOf vm.machine.registers.pc ins e (.completed .presented),
          ⟨{ advance vm.machine e with redraw := false }, screen⟩)
  /-- It completes, a picture is due, and the display refuses it. -/
  | refused {ins : Instruction} {e : Effect} (h : Machine.Executes keys vm.machine ins e)
      (hw : e.flow ≠ .wait) (hr : e.machine.redraw = true) {err : IoError} {screen : δ}
      (hp : display.present e.machine.frame vm.screen = (.error err, screen)) :
      Turn display keys vm
        (reportOf vm.machine.registers.pc ins e (.failed (.io err)),
          ⟨advance vm.machine e, screen⟩)

variable {display : Display δ} {keys : KeySet} {vm : Vm δ} {result : Report × Vm δ}

/-! ## How a cycle ends -/

section

variable {ins : Instruction} {fault : Fault} {e : Effect}

/-- A cycle that finds no instruction changes nothing and logs nothing. -/
theorem cycle_of_fetch_error (h : vm.machine.fetch = .error fault) :
    vm.cycle display keys =
      ({ outcome := .failed (.fatal vm.machine.registers.pc fault) }, vm) := by
  simp only [cycle, h]

/-- A cycle whose instruction faults changes nothing, as the instruction has left everything as it
was. -/
theorem cycle_of_fault (h : vm.machine.fetch = .ok ins)
    (hx : vm.machine.execute keys ins = .error (.fault fault)) :
    vm.cycle display keys =
      ({ outcome := .failed (.fatal vm.machine.registers.pc fault)
         log := logOf vm.machine.registers.pc ins false }, vm) := by
  have hrun := Machine.run_executeM keys (Machine.inBounds_of_fetch h)
  rw [hx] at hrun
  simp only [cycle, h, hrun, Except.map, InPlace.allOrNothing]

/-- A cycle whose instruction completes commits its effect. -/
theorem cycle_of_effect (h : vm.machine.fetch = .ok ins)
    (hx : vm.machine.execute keys ins = .ok e) :
    vm.cycle display keys =
      ({ outcome := (vm.commit display e).1
         log := logOf vm.machine.registers.pc ins e.waitBegan
         asked := e.asked }, (vm.commit display e).2) := by
  have hrun := Machine.run_executeM keys (Machine.inBounds_of_fetch h)
  rw [hx] at hrun
  simp only [cycle, h, hrun, Except.map, InPlace.allOrNothing]
  rfl

end

/-! ## Committing an effect -/

/-- An instruction that waits ends its cycle before anything is shown. -/
theorem commit_of_wait {e : Effect} (hw : e.flow = .wait) :
    vm.commit display e = (.completed .waiting, ⟨advance vm.machine e, vm.screen⟩) := by
  simp only [commit]
  exact if_pos hw

/-- One that does not wait hands over the picture if it is due. -/
theorem commit_of_due {e : Effect} (hw : e.flow ≠ .wait) (hr : e.machine.redraw = true) :
    vm.commit display e = present display ⟨advance vm.machine e, vm.screen⟩ := by
  simp only [commit]
  rw [if_neg hw]
  exact if_pos hr

/-- Otherwise the display is left alone. -/
theorem commit_of_not_due {e : Effect} (hw : e.flow ≠ .wait) (hr : e.machine.redraw = false) :
    vm.commit display e = (.completed .ran, ⟨advance vm.machine e, vm.screen⟩) := by
  simp only [commit]
  rw [if_neg hw]
  exact if_neg (Bool.eq_false_iff.1 hr)

/-- An instruction that completes makes a turn of one of the last four kinds. -/
theorem turn_commit {ins : Instruction} {e : Effect}
    (h : Machine.Executes keys vm.machine ins e) :
    Turn display keys vm
      (reportOf vm.machine.registers.pc ins e (vm.commit display e).1,
        (vm.commit display e).2) := by
  by_cases hw : e.flow = .wait
  · rw [commit_of_wait hw]
    exact .waits h hw
  · cases hr : e.machine.redraw with
    | false =>
      rw [commit_of_not_due hw hr]
      exact .runs h hw hr
    | true =>
      rw [commit_of_due hw hr]
      unfold present
      split
      · rename_i screen hp
        exact .shows h hw hr hp
      · rename_i err screen hp
        exact .refused h hw hr hp

/-- A completed instruction waits if its effect says so; otherwise it runs on, presents the picture
or is refused. -/
theorem commit_cases (display : Display δ) (vm : Vm δ) (e : Effect) :
    (e.flow = .wait ∧ (vm.commit display e).1 = .completed .waiting) ∨
      (e.flow ≠ .wait ∧ ((vm.commit display e).1 = .completed .ran ∨
        (vm.commit display e).1 = .completed .presented ∨
        ∃ err, (vm.commit display e).1 = .failed (.io err))) := by
  by_cases hw : e.flow = .wait
  · rw [commit_of_wait hw]
    exact .inl ⟨hw, rfl⟩
  · refine .inr ⟨hw, ?_⟩
    cases hr : e.machine.redraw with
    | false =>
      rw [commit_of_not_due hw hr]
      exact .inl rfl
    | true =>
      rw [commit_of_due hw hr]
      unfold present
      split
      · exact .inr (.inl rfl)
      · exact .inr (.inr ⟨_, rfl⟩)

/-- The cycle of a completed instruction waits exactly if the instruction does. -/
theorem commit_eq_waiting_iff {e : Effect} :
    (vm.commit display e).1 = .completed .waiting ↔ e.flow = .wait := by
  rcases commit_cases display vm e with ⟨hw, ho⟩ | ⟨hw, ho | ho | ⟨err, ho⟩⟩
  · exact iff_of_true ho hw
  · exact iff_of_false (by rw [ho]; exact nofun) hw
  · exact iff_of_false (by rw [ho]; exact nofun) hw
  · exact iff_of_false (by rw [ho]; exact nofun) hw

/-- It never ends with a fault. -/
theorem commit_ne_fatal {e : Effect} (pc : UInt16) (fault : Fault) :
    (vm.commit display e).1 ≠ .failed (.fatal pc fault) := by
  rcases commit_cases display vm e with ⟨-, ho⟩ | ⟨-, ho | ho | ⟨err, ho⟩⟩
  · rw [ho]
    exact nofun
  · rw [ho]
    exact nofun
  · rw [ho]
    exact nofun
  · rw [ho]
    exact nofun

/-- Showing the picture changes nothing of the machine but whether the picture is due. -/
theorem exists_commit (display : Display δ) (vm : Vm δ) (e : Effect) :
    ∃ redraw screen, (vm.commit display e).2 =
      ⟨{ advance vm.machine e with redraw }, screen⟩ := by
  by_cases hw : e.flow = .wait
  · rw [commit_of_wait hw]
    exact ⟨_, _, rfl⟩
  · cases hr : e.machine.redraw with
    | false =>
      rw [commit_of_not_due hw hr]
      exact ⟨_, _, rfl⟩
    | true =>
      rw [commit_of_due hw hr]
      unfold present
      split
      · exact ⟨_, _, rfl⟩
      · exact ⟨_, _, rfl⟩

/-- **Every cycle goes in one of the ways listed.** -/
theorem turn_cycle (display : Display δ) (keys : KeySet) (vm : Vm δ) :
    Turn display keys vm (vm.cycle display keys) := by
  cases h : vm.machine.fetch with
  | error fault =>
    rw [cycle_of_fetch_error h]
    exact .lost h
  | ok ins =>
    have hin := Machine.inBounds_of_fetch h
    cases hx : vm.machine.execute keys ins with
    | ok e =>
      rw [cycle_of_effect h hx]
      exact turn_commit ⟨h, hx, Machine.completes_of_execute hin hx⟩
    | error stop =>
      cases stop with
      | fault fault =>
        rw [cycle_of_fault h hx]
        exact .faults h ((Machine.execute_eq_fault_iff keys hin).1 hx)
      | defect d => exact absurd hx (Machine.execute_ne_defect hin d)

namespace Turn

/-- A cycle reports a status, a fault at its own program counter, or the refusal with which the
display answered when it was handed the picture. -/
theorem graceful (h : Turn display keys vm result) :
    (∃ status, result.1.outcome = .completed status) ∨
      (∃ fault, result.1.outcome = .failed (.fatal vm.machine.registers.pc fault)) ∨
      ∃ err, result.1.outcome = .failed (.io err) ∧
        (display.present result.2.machine.frame vm.screen).1 = .error err := by
  cases h with
  | lost => exact .inr (.inl ⟨_, rfl⟩)
  | faults => exact .inr (.inl ⟨_, rfl⟩)
  | waits => exact .inl ⟨_, rfl⟩
  | runs => exact .inl ⟨_, rfl⟩
  | shows => exact .inl ⟨_, rfl⟩
  | refused _ _ _ hp =>
    refine .inr (.inr ⟨_, rfl, ?_⟩)
    show (display.present (advance vm.machine _).frame vm.screen).1 = _
    rw [advance_frame, hp]

/-- A cycle raises a fault and leaves everything as it was, or it executes an instruction, after which
only the program counter moves and the picture may come to be due no longer. -/
theorem fatal_or_executes (h : Turn display keys vm result) :
    ((∃ fault, result.1.outcome = .failed (.fatal vm.machine.registers.pc fault)) ∧
        result.2 = vm) ∨
      ((∀ pc fault, result.1.outcome ≠ .failed (.fatal pc fault)) ∧
        ∃ ins e redraw, Machine.Executes keys vm.machine ins e ∧
          result.2.machine = { advance vm.machine e with redraw }) := by
  cases h with
  | lost | faults => exact .inl ⟨⟨_, rfl⟩, rfl⟩
  | waits h | runs h | shows h | refused h =>
    refine .inr ⟨?_, _, _, _, h, rfl⟩
    intro pc fault hfatal
    cases hfatal

/-- Memory stays as it is, or is written at the index register. -/
theorem memory (h : Turn display keys vm result) :
    result.2.machine.memory = vm.machine.memory ∨
      ∃ data, vm.machine.memory.write vm.machine.registers.index.toNat data =
        .ok result.2.machine.memory := by
  cases h with
  | lost => exact .inl rfl
  | faults => exact .inl rfl
  | waits h => exact h.completes.memory
  | runs h => exact h.completes.memory
  | shows h => exact h.completes.memory
  | refused h => exact h.completes.memory

/-- The fault that is reported is the one that the state tells. -/
theorem fault?_of_fatal (h : Turn display keys vm result) {pc : UInt16} {fault : Fault}
    (hf : result.1.outcome = .failed (.fatal pc fault)) :
    pc = vm.machine.registers.pc ∧ vm.machine.fault? = some fault := by
  cases h with
  | lost h =>
    cases hf
    exact ⟨rfl, Machine.fault?_of_fetch_error h⟩
  | faults h hfault =>
    cases hf
    exact ⟨rfl, (Machine.fault?_of_fetch h).trans hfault⟩
  | waits => cases hf
  | runs => cases hf
  | shows => cases hf
  | refused => cases hf

/-- In a state that tells a fault, a cycle reports it and leaves everything as it was. -/
theorem fatal_of_fault? (h : Turn display keys vm result) {fault : Fault}
    (hf : vm.machine.fault? = some fault) :
    result.1.outcome = .failed (.fatal vm.machine.registers.pc fault) ∧ result.2 = vm := by
  cases h with
  | lost h =>
    rw [Machine.fault?_of_fetch_error h] at hf
    cases hf
    exact ⟨rfl, rfl⟩
  | faults h hfault =>
    rw [Machine.fault?_of_fetch h, hfault] at hf
    cases hf
    exact ⟨rfl, rfl⟩
  | waits h | runs h | shows h | refused h =>
    rw [h.fault?_eq_none] at hf
    cases hf

end Turn

/-- **A cycle raises a fault exactly if the state tells it.** -/
theorem fatal_iff {pc : UInt16} {fault : Fault} :
    (vm.cycle display keys).1.outcome = .failed (.fatal pc fault) ↔
      pc = vm.machine.registers.pc ∧ vm.machine.fault? = some fault := by
  constructor
  · exact (turn_cycle display keys vm).fault?_of_fatal
  · rintro ⟨rfl, hf⟩
    exact ((turn_cycle display keys vm).fatal_of_fault? hf).1

/-- A cycle does not fault exactly if the state tells no fault. -/
theorem not_fatal_iff :
    (∀ pc fault, (vm.cycle display keys).1.outcome ≠ .failed (.fatal pc fault)) ↔
      vm.machine.fault? = none := by
  rw [Option.eq_none_iff_forall_ne_some]
  constructor
  · intro h fault hfault
    exact h _ fault (fatal_iff.2 ⟨rfl, hfault⟩)
  · intro h pc fault hfatal
    exact h fault (fatal_iff.1 hfatal).2

end Vm

end Chip8
