import Chip8.Proofs.Calls
import Mathlib.Data.List.Induction

/-!
# A wait for a key stays where it is

What a wait remembers is kept apart from the program counter, so it might outlive its instruction
and be taken up by another. It does not: while it is there, the program counter stands at a wait
for a key, and nothing that a waiting cycle changes can move it away.

* `Turn.machine_of_waiting`: a waiting cycle changes what the wait remembers, and nothing else.
* `WaitsInPlace` is the invariant; `Turn.keyWait` is its step, which also tells that a cycle leaves
  a wait behind exactly if it reports that it waits.
* `waitsInPlace_afterAll` and `keyWait_afterAll` are the two inductions over a sequence of calls.
* `wait_never_leaks` puts them together.
-/

namespace Chip8

namespace Machine

/-- While a wait for a key remembers something, the program counter stands at such a wait. -/
def WaitsInPlace (m : Machine) : Prop := m.keyWait ≠ none → ∃ x, m.fetch = .ok (.awaitKey x)

/-- A wait raises no fault. -/
theorem faultOf_awaitKey (m : Machine) (x : UInt8) : m.faultOf (.awaitKey x) = none := rfl

/-- Where there is a fault to come, no wait is under way. -/
theorem WaitsInPlace.keyWait_of_fault? {m : Machine} (h : m.WaitsInPlace) {fault : Fault}
    (hf : m.fault? = some fault) : m.keyWait = none := by
  cases hk : m.keyWait with
  | none => rfl
  | some held =>
    obtain ⟨x, hfetch⟩ := h (by rw [hk]; exact nofun)
    rw [fault?_of_fetch hfetch, faultOf_awaitKey] at hf
    cases hf

/-- An instruction that goes on leaves no wait behind. -/
theorem Executes.keyWait_eq_none {keys : KeySet} {m : Machine} {ins : Instruction} {e : Effect}
    (h : Executes keys m ins e) (hin : m.WaitsInPlace) (hw : e.flow ≠ .wait) :
    e.machine.keyWait = none := by
  by_cases hins : ∃ x, ins = .awaitKey x
  · obtain ⟨x, rfl⟩ := hins
    exact h.completes.keyWait_of_awaitKey hw
  · rw [h.completes.keyWait_eq fun x hx => hins ⟨x, hx⟩]
    cases hk : m.keyWait with
    | none => rfl
    | some held =>
      -- a wait under way would stand at a wait for a key, which this instruction is not
      obtain ⟨x, hfetch⟩ := hin (by rw [hk]; exact nofun)
      rw [h.fetched] at hfetch
      exact absurd ⟨x, Except.ok.inj hfetch⟩ hins

end Machine

namespace Vm

open Machine

variable {δ : Type} {vm : Vm δ} {display : Display δ} {keys : KeySet} {result : Report × Vm δ}

/-! ## One cycle -/

/-- After an instruction that waits only what the wait remembers has changed. -/
theorem advance_of_wait {m : Machine} {ins : Instruction} {e : Effect}
    (h : Completes keys m ins e) (hw : e.flow = .wait) :
    ∃ held, advance m e = { m with keyWait := some held } := by
  obtain ⟨held, hm⟩ := h.machine_of_wait hw
  refine ⟨held, ?_⟩
  unfold advance
  rw [hm, hw]
  rfl

/-- **A waiting cycle is a stutter**: it changes what the wait remembers, and nothing else. -/
theorem Turn.machine_of_waiting (h : Turn display keys vm result)
    (hout : result.1.outcome = .completed .waiting) :
    ∃ held, result.2 = { vm with machine := { vm.machine with keyWait := some held } } := by
  cases h with
  | waits h hw =>
    obtain ⟨held, hm⟩ := advance_of_wait h.completes hw
    refine ⟨held, ?_⟩
    show (⟨advance vm.machine _, vm.screen⟩ : Vm δ) = _
    rw [hm]
  | lost | faults | runs | shows | refused => cases hout

/-- Where no wait is left behind, none has to stand in place. -/
theorem waitsInPlace_of_none {m : Machine} (h : m.keyWait = none) : m.WaitsInPlace :=
  fun hne => absurd h hne

/-- A cycle leaves a wait behind exactly if it reports that it waits, and then in place. -/
theorem Turn.keyWait (h : Turn display keys vm result) (hin : vm.machine.WaitsInPlace) :
    result.2.machine.WaitsInPlace ∧
      (result.2.machine.keyWait ≠ none ↔ result.1.outcome = .completed .waiting) := by
  -- but for a waiting cycle, none is left behind and the report tells something else
  have of_none : result.2.machine.keyWait = none → result.1.outcome ≠ .completed .waiting →
      result.2.machine.WaitsInPlace ∧
        (result.2.machine.keyWait ≠ none ↔ result.1.outcome = .completed .waiting) :=
    fun hnone hout => ⟨waitsInPlace_of_none hnone, iff_of_false (absurd hnone) hout⟩
  cases h with
  | lost hf => exact of_none (hin.keyWait_of_fault? (fault?_of_fetch_error hf)) nofun
  | faults hf hfault =>
    exact of_none (hin.keyWait_of_fault? ((fault?_of_fetch hf).trans hfault)) nofun
  | waits h hw =>
    obtain ⟨held, hm⟩ := advance_of_wait h.completes hw
    obtain ⟨x, rfl⟩ := h.completes.awaits_of_wait hw
    show (advance vm.machine _).WaitsInPlace ∧ ((advance vm.machine _).keyWait ≠ none ↔ _)
    rw [hm]
    have hfetch : { vm.machine with keyWait := some held }.fetch = .ok (.awaitKey x) :=
      (fetch_congr rfl rfl).trans h.fetched
    exact ⟨fun _ => ⟨x, hfetch⟩, iff_of_true nofun rfl⟩
  | runs h hw | shows h hw | refused h hw => exact of_none (h.keyWait_eq_none hin hw) nofun

/-! ## A sequence of calls -/

/-- Every wait stays in place along every sequence of calls. -/
theorem waitsInPlace_afterAll (h : vm.machine.WaitsInPlace) (calls : List (Call δ)) :
    (vm.afterAll calls).machine.WaitsInPlace := by
  refine afterAll_invariant (fun vm => vm.machine.WaitsInPlace) h ?_ ?_ calls
  · intro vm display keys hvm
    exact ((turn_cycle display keys vm).keyWait hvm).1
  · intro vm hvm hne
    obtain ⟨x, hfetch⟩ := hvm hne
    exact ⟨x, hfetch⟩

/-- The last cycle of a run waited. -/
def LastWaited (reports : List Report) : Prop :=
  ∃ report, reports.getLast? = some report ∧ report.outcome = .completed .waiting

/-- The last report is the one that tells. -/
theorem lastWaited_concat (reports : List Report) (report : Report) :
    LastWaited (reports ++ [report]) ↔ report.outcome = .completed .waiting := by
  unfold LastWaited
  rw [List.getLast?_concat]
  constructor
  · rintro ⟨last, hlast, hout⟩
    cases hlast
    exact hout
  · intro hout
    exact ⟨report, rfl, hout⟩

/-- From a state without a wait, a sequence of calls leaves one behind exactly if its last cycle
waited. -/
theorem keyWait_afterAll (h : vm.machine.keyWait = none) (calls : List (Call δ)) :
    (vm.afterAll calls).machine.keyWait ≠ none ↔ LastWaited (vm.reports calls) := by
  induction calls using List.reverseRecOn with
  | nil =>
    refine iff_of_false (absurd h) ?_
    rintro ⟨report, hlast, -⟩
    cases hlast
  | append_singleton past call ih =>
    rw [afterAll_concat]
    cases call with
    | cycle display keys =>
      have hin := waitsInPlace_afterAll (waitsInPlace_of_none h) past
      rw [reports_concat_cycle, lastWaited_concat]
      exact ((turn_cycle display keys (vm.afterAll past)).keyWait hin).2
    | tick =>
      rw [reports_concat_tick]
      exact ih

/-- **A wait for a key never leaks.** In every state that a program comes to, a wait is under way
exactly if the latest cycle waited. While it is, the program counter is even, lies in the program
area and points at a wait for a key. And a cycle that waits makes no display call and leaves
everything as it was but for what the wait remembers. -/
theorem wait_never_leaks (memory : Memory) (seed : UInt64) (screen : δ) (calls : List (Call δ)) :
    let start := boot memory seed screen
    let vm := start.afterAll calls
    let pc := vm.machine.registers.pc.toNat
    (vm.machine.keyWait ≠ none ↔ LastWaited (start.reports calls)) ∧
      (vm.machine.keyWait ≠ none → (0x200 ≤ pc ∧ pc % 2 = 0 ∧ pc ≤ 0xffe) ∧
        ∃ word x, vm.machine.memory.word pc = .ok word ∧
          Instruction.decode word = .ok (.awaitKey x)) ∧
      ∀ (display : Display δ) (keys : KeySet),
        (vm.cycle display keys).1.outcome = .completed .waiting →
        vm.displayLog [.cycle display keys] = [] ∧
          ∃ held, (vm.cycle display keys).2 =
            { vm with machine := { vm.machine with keyWait := some held } } := by
  intro start vm pc
  have hnone : start.machine.keyWait = none := rfl
  refine ⟨keyWait_afterAll hnone calls, ?_, ?_⟩
  · intro hwait
    have hin : vm.machine.WaitsInPlace := waitsInPlace_afterAll (waitsInPlace_of_none hnone) calls
    obtain ⟨x, hfetch⟩ := hin hwait
    obtain ⟨hlow, heven, hhigh⟩ := pc_of_fetch hfetch
    obtain ⟨word, hword, hdecode⟩ := word_of_fetch hfetch
    exact ⟨⟨hlow, heven, Nat.le_of_lt_succ (Nat.lt_of_succ_lt_succ hhigh)⟩,
      word, x, hword, hdecode⟩
  · intro display keys hout
    refine ⟨?_, (turn_cycle display keys vm).machine_of_waiting hout⟩
    rw [displayLog_cycle, hout, Outcome.displayCalls_waiting]

end Vm

end Chip8
