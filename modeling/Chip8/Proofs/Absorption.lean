import Chip8.Display.Recorder
import Chip8.Memory.Program
import Chip8.Proofs.Calls

/-!
# Faults are final

A cycle executes its instruction in place, and one that faults has checked before it changed
anything, so the state is the one before. And since the fault is told by memory, registers and the
depth of the return stack, none of which time or the keypad can change, every later cycle raises it
again.

* `run_executeM_of_fault?` is the faulting instruction itself.
* `afterAll_of_fault?`, `reports_of_fault?` and `displayLog_of_fault?` are the three inductions
  over the later calls.
* `fatal_absorbs` puts them together.
-/

namespace Chip8.Vm

open Call

variable {δ : Type} {vm : Vm δ} {display : Display δ} {keys : KeySet} {fault : Fault}

/-- A tick leaves the fault to come as it is. -/
theorem fault?_tick (vm : Vm δ) : vm.tick.machine.fault? = vm.machine.fault? :=
  vm.machine.fault?_timers vm.machine.timers.tick

/-- The instruction that raises the fault to come stops before it has changed anything. -/
theorem run_executeM_of_fault? (keys : KeySet) (h : vm.machine.fault? = some fault)
    {ins : Instruction} (hfetch : vm.machine.fetch = .ok ins) :
    (Machine.executeM keys ins).run vm.machine = .error (.fault fault) vm.machine := by
  have hin := Machine.inBounds_of_fetch hfetch
  have hexec : vm.machine.execute keys ins = .error (.fault fault) := by
    rw [Machine.execute_eq_fault_iff keys hin, ← Machine.fault?_of_fetch hfetch]
    exact h
  rw [Machine.run_executeM keys hin, hexec]
  rfl

/-- A state with a fault to come is left by a cycle as it is. -/
theorem cycle_of_fault? (display : Display δ) (keys : KeySet)
    (h : vm.machine.fault? = some fault) :
    (vm.cycle display keys).1.outcome = .failed (.fatal vm.machine.registers.pc fault) ∧
      (vm.cycle display keys).2 = vm :=
  (turn_cycle display keys vm).fatal_of_fault? h

/-- Of later calls only the ticks have an effect, and only on the timers. -/
theorem afterAll_of_fault? (h : vm.machine.fault? = some fault) (calls : List (Call δ)) :
    vm.afterAll calls = { vm with
      machine := { vm.machine with timers := vm.machine.timers.ticks (ticksIn calls) } } := by
  induction calls generalizing vm with
  | nil => rfl
  | cons call rest ih =>
    rw [afterAll_cons]
    cases call with
    | cycle display keys =>
      have hsame : vm.after (.cycle display keys) = vm := (cycle_of_fault? display keys h).2
      rw [hsame, ih h, ticksIn_cycle]
    | tick =>
      have htick : vm.tick.machine.fault? = some fault := (fault?_tick vm).trans h
      show vm.tick.afterAll rest = _
      rw [ih htick, ticksIn_tick, ← Timers.ticks_tick]
      rfl

/-- Every later cycle reports the fault again. -/
theorem reports_of_fault? (h : vm.machine.fault? = some fault) (calls : List (Call δ)) :
    ∀ report ∈ vm.reports calls,
      report.outcome = .failed (.fatal vm.machine.registers.pc fault) := by
  induction calls generalizing vm with
  | nil =>
    intro report hmem
    cases hmem
  | cons call rest ih =>
    cases call with
    | cycle display keys =>
      obtain ⟨hout, hsame⟩ := cycle_of_fault? display keys h
      intro report hmem
      rw [reports, hsame] at hmem
      rcases List.mem_cons.1 hmem with rfl | hrest
      · exact hout
      · exact ih h report hrest
    | tick =>
      have htick : vm.tick.machine.fault? = some fault := (fault?_tick vm).trans h
      exact ih htick

/-- No later call asks anything of the display. -/
theorem displayLog_of_fault? (h : vm.machine.fault? = some fault) (calls : List (Call δ)) :
    vm.displayLog calls = [] := by
  induction calls generalizing vm with
  | nil => rfl
  | cons call rest ih =>
    cases call with
    | cycle display keys =>
      obtain ⟨hout, hsame⟩ := cycle_of_fault? display keys h
      have hafter : vm.after (.cycle display keys) = vm := hsame
      rw [displayLog_cons, displayLog_cycle, hout, hafter, ih h]
      rfl
    | tick =>
      have htick : vm.tick.machine.fault? = some fault := (fault?_tick vm).trans h
      rw [displayLog_tick]
      exact ih htick

/-- **A fault changes nothing, and it is final.** It names the program counter of the state in
which it arose, and the display is not called. That state stays as it is: if it was an instruction
that faulted, it has stopped in place with everything as it found it. Whatever calls follow, with
whatever keys and displays, only their ticks have an effect, and only on the timers; every cycle
among them reports the same fault, and the display is never called again. -/
theorem fatal_absorbs {pc : UInt16}
    (h : (vm.cycle display keys).1.outcome = .failed (.fatal pc fault)) :
    pc = vm.machine.registers.pc ∧ (vm.cycle display keys).2 = vm ∧
      (∀ ins, vm.machine.fetch = .ok ins →
        (Machine.executeM keys ins).run vm.machine = .error (.fault fault) vm.machine) ∧
      vm.displayLog [.cycle display keys] = [] ∧
      ∀ calls : List (Call δ),
        vm.afterAll calls = { vm with
          machine := { vm.machine with timers := vm.machine.timers.ticks (ticksIn calls) } } ∧
        vm.displayLog calls = [] ∧
        ∀ report ∈ vm.reports calls, report.outcome = .failed (.fatal pc fault) := by
  obtain ⟨rfl, hf⟩ := fatal_iff.1 h
  refine ⟨rfl, (cycle_of_fault? display keys hf).2, ?_, displayLog_of_fault? hf _, ?_⟩
  · intro ins hfetch
    exact run_executeM_of_fault? keys hf hfetch
  · intro calls
    exact ⟨afterAll_of_fault? hf calls, displayLog_of_fault? hf calls, reports_of_fault? hf calls⟩

/-! ## A store that straddles the program area -/

/-- A machine in the middle of a run, with a call open, both timers going, a picture that is due and
a wait for a key that has begun. The index register is one below the program area. -/
def straddling (memory : Memory) : Machine where
  memory := memory
  registers := { v := .replicate 16 0xAB, index := 0x1FF }
  stack := ⟨.replicate 16 0x30A, 1, by decide⟩
  timers := { delay := 5, sound := 1 }
  frame := (Frame.blank.drawSprite 60 30 [0xFF, 0x81]).frame
  redraw := true
  keyWait := some (KeySet.empty.insert .last)
  random := .ofSeed 0xC8

/-- Storing V0 and V1 is refused there. -/
theorem fault?_straddling {memory : Memory} (hword : memory.word 0x200 = .ok 0xF155) :
    (straddling memory).fetch = .ok (.save 1) ∧
      (straddling memory).fault? = some (.reservedWrite 0x1FF) := by
  have hpc : (straddling memory).registers.pc.toNat = 0x200 := rfl
  have hfetch : (straddling memory).fetch = .ok (.save 1) := by
    rw [Machine.fetch_eq_bind _ (by omega) (by omega) (by omega), hpc]
    show (memory.word 0x200 >>= _) = _
    rw [hword]
    rfl
  refine ⟨hfetch, (Machine.fault?_of_fetch hfetch).trans ?_⟩
  exact Memory.writeFault?_eq 0x1FF 2

/-- The store is refused, also when its cycle is called for again: at once with another key down and
at a display that would refuse, and after three ticks with no key down. Of all this only the ticks
are seen. -/
theorem fatal_absorbs_straddling :
    ∃ memory, Memory.ofProgram ⟨[[0xF1, 0x55]], none⟩ = .ok (2, memory) ∧
      let vm : Vm Recorder := ⟨straddling memory, { calls := 3, draws := 2 }⟩
      let display := Recorder.display []
      let keys := KeySet.empty.insert Key.last
      let later : List (Call Recorder) :=
        [.cycle (Recorder.display [4]) (KeySet.ofList [0, 7]), .tick, .tick, .tick,
          .cycle display .empty]
      (vm.cycle display keys).1.outcome = .failed (.fatal 0x200 (.reservedWrite 0x1FF)) ∧
        (vm.cycle display keys).2 = vm ∧
        (Machine.executeM keys (.save 1)).run vm.machine =
          .error (.fault (.reservedWrite 0x1FF)) vm.machine ∧
        vm.afterAll later =
          { vm with machine := { vm.machine with timers := { delay := 2, sound := 0 } } } ∧
        vm.displayLog later = [] ∧
        (vm.reports later).map (·.outcome) =
          List.replicate 2 (.failed (.fatal 0x200 (.reservedWrite 0x1FF))) := by
  obtain ⟨memory, hload, hword⟩ := Memory.exists_ofProgram_word 0xF1 0x55
  obtain ⟨hfetch, hfault⟩ := fault?_straddling hword
  refine ⟨memory, hload, ?_⟩
  intro vm display keys later
  have h : (vm.cycle display keys).1.outcome = .failed (.fatal 0x200 (.reservedWrite 0x1FF)) :=
    fatal_iff.2 ⟨rfl, hfault⟩
  obtain ⟨-, hsame, hstops, -, hlater⟩ := fatal_absorbs h
  obtain ⟨hafter, hlog, hreports⟩ := hlater later
  refine ⟨h, hsame, hstops (.save 1) hfetch, hafter, hlog, ?_⟩
  refine List.eq_replicate_iff.2 ⟨rfl, ?_⟩
  intro outcome hmem
  obtain ⟨report, hreport, rfl⟩ := List.mem_map.1 hmem
  exact hreports report hreport

end Chip8.Vm
