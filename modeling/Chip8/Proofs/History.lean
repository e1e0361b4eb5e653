import Chip8.Proofs.Calls

/-!
# What has been executed

An `Execution` is an instruction that a cycle has executed, with the machine before and after. A cycle
that waits for a key or is refused by its display has executed its instruction, one that faults has
not.

* `Vm.execution?` tells what a cycle executes, and `execution?_cases` what comes of it.
* `Vm.executions` lists what the cycles of a sequence of calls execute, in order.
-/

namespace Chip8

/-- The program faulted. -/
def Outcome.isFatal : Outcome → Bool
  | .failed (.fatal _ _) => true
  | _ => false

/-- An outcome is fatal if it tells of a fault, wherever that arose. -/
theorem Outcome.isFatal_iff {outcome : Outcome} :
    outcome.isFatal = true ↔ ∃ pc fault, outcome = .failed (.fatal pc fault) := by
  cases outcome with
  | completed status => simp [isFatal]
  | failed e => cases e <;> simp [isFatal]
  | broken d => simp [isFatal]

/-- An instruction that a cycle has executed. -/
structure Execution where
  /-- The machine before the cycle. -/
  before : Machine
  /-- The instruction. -/
  ins : Instruction
  /-- The machine after the cycle. -/
  after : Machine

namespace Vm

variable {δ : Type} {vm : Vm δ}

/-- What a cycle executes, unless it faults. -/
def execution? (display : Display δ) (keys : KeySet) (vm : Vm δ) : Option Execution :=
  match vm.machine.fetch with
  | .error _ => none
  | .ok ins =>
    if (vm.cycle display keys).1.outcome.isFatal then none
    else some ⟨vm.machine, ins, (vm.cycle display keys).2.machine⟩

/-- What the cycles of a sequence execute, in order. -/
def executions (vm : Vm δ) : List (Call δ) → List Execution
  | [] => []
  | .cycle display keys :: rest =>
    (vm.execution? display keys).toList ++ (vm.cycle display keys).2.executions rest
  | .tick :: rest => vm.tick.executions rest

/-- A cycle faults, executes nothing and leaves everything as it was, or it executes an instruction. -/
theorem execution?_cases (display : Display δ) (keys : KeySet) (vm : Vm δ) :
    ((∃ fault, vm.machine.fault? = some fault) ∧ vm.execution? display keys = none ∧
        (vm.cycle display keys).2 = vm) ∨
      ∃ ins e redraw, Machine.Executes keys vm.machine ins e ∧
        (vm.cycle display keys).2.machine = { advance vm.machine e with redraw } ∧
        vm.execution? display keys =
          some ⟨vm.machine, ins, (vm.cycle display keys).2.machine⟩ := by
  rcases (turn_cycle display keys vm).fatal_or_executes with
    ⟨⟨fault, hfatal⟩, hsame⟩ | ⟨hgoes, ins, e, redraw, hexec, hafter⟩
  · refine .inl ⟨⟨fault, (fatal_iff.1 hfatal).2⟩, ?_, hsame⟩
    unfold execution?
    split
    · rfl
    · rw [hfatal]
      rfl
  · refine .inr ⟨ins, e, redraw, hexec, hafter, ?_⟩
    have hnot : ¬ (vm.cycle display keys).1.outcome.isFatal = true := by
      intro hfatal
      obtain ⟨pc, fault, hout⟩ := Outcome.isFatal_iff.1 hfatal
      exact hgoes pc fault hout
    simp only [execution?, hexec.fetched, if_neg hnot]

/-- An instruction at the program counter that raises no fault is executed. -/
theorem executes_of_fetch {ins : Instruction} (h : vm.machine.fetch = .ok ins)
    (hf : vm.machine.faultOf ins = none) (display : Display δ) (keys : KeySet) :
    ∃ e redraw, Machine.Executes keys vm.machine ins e ∧
      (vm.cycle display keys).2.machine = { advance vm.machine e with redraw } ∧
      vm.execution? display keys = some ⟨vm.machine, ins, (vm.cycle display keys).2.machine⟩ := by
  rcases execution?_cases display keys vm with
    ⟨⟨fault, hfault⟩, -⟩ | ⟨found, e, redraw, hexec, hafter, hsome⟩
  · rw [Machine.fault?_of_fetch h, hf] at hfault
    cases hfault
  · obtain rfl : ins = found := Except.ok.inj (h.symm.trans hexec.fetched)
    exact ⟨e, redraw, hexec, hafter, hsome⟩

/-- More calls execute after the first ones. -/
theorem executions_append (vm : Vm δ) (calls more : List (Call δ)) :
    vm.executions (calls ++ more) = vm.executions calls ++ (vm.afterAll calls).executions more := by
  induction calls generalizing vm with
  | nil => rfl
  | cons call rest ih =>
    cases call with
    | cycle display keys =>
      rw [List.cons_append, executions, executions, ih, List.append_assoc]
      rfl
    | tick => exact ih vm.tick

/-- A cycle by itself completes one instruction or none. -/
theorem executions_cycle (display : Display δ) (keys : KeySet) (vm : Vm δ) :
    vm.executions [.cycle display keys] = (vm.execution? display keys).toList :=
  List.append_nil _

end Vm

end Chip8
