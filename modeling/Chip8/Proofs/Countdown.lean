import Chip8.Proofs.History
import Chip8.Proofs.Keypad.Stutter
import Chip8.Proofs.Machine.Silent
import Mathlib.Data.List.Induction

/-!
# What the timers show

Each timer counts down from what it was set to last, one a tick, and stays at zero. One instruction
sets it, and nothing else but a tick changes it; so what it shows can be told from the past alone.

* `Moment` is what a timer could notice: an instruction that is executed, or a tick. `Vm.moments` lists
  the moments of a sequence of calls.
* `Moment.lastSetting` and `Moment.ticksSince` look back from the latest moment, to the value that a
  timer was set to and to the ticks since then. `Moment.shown` is the one less the other.
* `value_cycle` is the step: what an instruction leaves a timer at. `value_afterAll` is the run.
* `timers_count_down` puts them together, with what the program gets to see of them.
-/

namespace Chip8

/-- One of the two timers. -/
inductive Timer where
  | delay
  | sound

/-- What a timer shows. -/
def Timers.value (t : Timers) : Timer → UInt8
  | .delay => t.delay
  | .sound => t.sound

/-- The register that an instruction puts into a timer, if it sets that timer. -/
def Instruction.source? : Timer → Instruction → Option UInt8
  | .delay, .setDelay x => some x
  | .sound, .setSound x => some x
  | _, _ => none

/-- The value that an executed instruction has put into a timer. -/
def Execution.setting? (timer : Timer) (x : Execution) : Option UInt8 :=
  (x.ins.source? timer).map x.before.operand

/-- Something that a timer could notice. -/
inductive Moment where
  /-- An instruction is executed. -/
  | executed (x : Execution)
  /-- The timers tick. -/
  | ticked

namespace Moment

variable {timer : Timer} {past : List Moment}

/-- The value that a timer is set to. -/
def setting? (timer : Timer) : Moment → Option UInt8
  | executed x => x.setting? timer
  | ticked => none

/-- The timers tick. -/
def isTick : Moment → Bool
  | executed _ => false
  | ticked => true

/-- The value that a timer was set to last, zero if it never was. -/
def lastSetting (timer : Timer) (past : List Moment) : UInt8 :=
  (past.reverse.findSome? (setting? timer)).getD 0

/-- The ticks since a timer was set last, or all of them if it never was. -/
def ticksSince (timer : Timer) (past : List Moment) : Nat :=
  (past.reverse.takeWhile fun moment => (moment.setting? timer).isNone).countP isTick

/-- What a timer is left at by its past: what it was set to last less the ticks since then, or zero
if there were more of these. -/
def shown (timer : Timer) (past : List Moment) : Nat :=
  (lastSetting timer past).toNat - ticksSince timer past

/-- An executed instruction sets what it sets. -/
@[simp] theorem setting?_executed (timer : Timer) (x : Execution) :
    (executed x).setting? timer = x.setting? timer := rfl

/-- The latest moment sets the timer anew, or leaves its setting as it was. -/
theorem lastSetting_concat (timer : Timer) (past : List Moment) (moment : Moment) :
    lastSetting timer (past ++ [moment]) =
      (moment.setting? timer).getD (lastSetting timer past) := by
  cases h : moment.setting? timer with
  | none => simp [lastSetting, h]
  | some b => simp [lastSetting, h]

/-- Right after a setting there has been no tick since. -/
theorem ticksSince_of_setting {moment : Moment} {b : UInt8} (h : moment.setting? timer = some b) :
    ticksSince timer (past ++ [moment]) = 0 := by
  simp [ticksSince, h]

/-- A moment that sets nothing counts if it is a tick. -/
theorem ticksSince_of_none {moment : Moment} (h : moment.setting? timer = none) :
    ticksSince timer (past ++ [moment]) =
      ticksSince timer past + if moment.isTick then 1 else 0 := by
  simp [ticksSince, h, List.countP_cons]

/-- A tick takes one off, if there is one to take. -/
theorem shown_ticked (timer : Timer) (past : List Moment) :
    shown timer (past ++ [ticked]) = shown timer past - 1 := by
  rw [shown, lastSetting_concat, ticksSince_of_none rfl]
  exact Nat.sub_add_eq _ _ 1

/-- An instruction shows what it sets, or leaves what was shown. -/
theorem shown_executed (timer : Timer) (past : List Moment) (x : Execution) :
    shown timer (past ++ [executed x]) =
      ((x.setting? timer).map UInt8.toNat).getD (shown timer past) := by
  rw [← setting?_executed]
  cases h : (executed x).setting? timer with
  | none =>
    rw [shown, lastSetting_concat, ticksSince_of_none h, h]
    rfl
  | some b =>
    rw [shown, lastSetting_concat, ticksSince_of_setting h, h]
    rfl

end Moment

namespace Machine

variable {keys : KeySet} {m : Machine} {ins : Instruction} {e : Effect} {x : UInt8}

namespace Completes

/-- The timers are set by two instructions only. -/
theorem timers_eq (h : Completes keys m ins e) (hdelay : ∀ x, ins ≠ .setDelay x)
    (hsound : ∀ x, ins ≠ .setSound x) : e.machine.timers = m.timers := by
  cases h with
  | @setDelay x => exact absurd rfl (hdelay x)
  | @setSound x => exact absurd rfl (hsound x)
  | _ => rfl

/-- Setting the delay timer takes the register's value and leaves the sound timer. -/
theorem timers_of_setDelay (h : Completes keys m (.setDelay x) e) :
    e.machine.timers = { m.timers with delay := m.operand x } := by
  cases h with
  | setDelay hx => rw [operand_eq_v m hx]
  | skip h | assign h | assignFlagged h | point h => exact absurd h Bool.false_ne_true
  | store _ pos => exact absurd pos (Nat.lt_irrefl 0)

/-- Setting the sound timer leaves the delay timer. -/
theorem timers_of_setSound (h : Completes keys m (.setSound x) e) :
    e.machine.timers = { m.timers with sound := m.operand x } := by
  cases h with
  | setSound hx => rw [operand_eq_v m hx]
  | skip h | assign h | assignFlagged h | point h => exact absurd h Bool.false_ne_true
  | store _ pos => exact absurd pos (Nat.lt_irrefl 0)

/-- An instruction leaves a timer at what it puts into it, and at what it showed if it puts nothing. -/
theorem value (h : Completes keys m ins e) (timer : Timer) :
    e.machine.timers.value timer =
      ((ins.source? timer).map m.operand).getD (m.timers.value timer) := by
  by_cases hdelay : ∃ x, ins = .setDelay x
  · obtain ⟨x, rfl⟩ := hdelay
    rw [h.timers_of_setDelay]
    cases timer with
    | delay => rfl
    | sound => rfl
  · by_cases hsound : ∃ x, ins = .setSound x
    · obtain ⟨x, rfl⟩ := hsound
      rw [h.timers_of_setSound]
      cases timer with
      | delay => rfl
      | sound => rfl
    · have hnone : ins.source? timer = none := by
        unfold Instruction.source?
        split
        · exact absurd ⟨_, rfl⟩ hdelay
        · exact absurd ⟨_, rfl⟩ hsound
        · rfl
      rw [hnone, h.timers_eq (fun x hx => hdelay ⟨x, hx⟩) fun x hx => hsound ⟨x, hx⟩]
      rfl

end Completes

/-- The delay timer is read into a register. -/
theorem execute_readDelay {r : Register} (hr : register x = .ok r) :
    m.execute keys (.readDelay x) = .ok { machine := m.setV r m.timers.delay } := by
  rw [execute, hr]
  rfl

end Machine

namespace Vm

open Machine

variable {δ : Type} {vm : Vm δ}

/-- The moments of a sequence of calls, in order. -/
def moments (vm : Vm δ) : List (Call δ) → List Moment
  | [] => []
  | .cycle display keys :: rest =>
    (vm.execution? display keys).toList.map .executed ++ (vm.cycle display keys).2.moments rest
  | .tick :: rest => .ticked :: vm.tick.moments rest

/-- More calls bring their moments after those of the first ones. -/
theorem moments_append (vm : Vm δ) (calls more : List (Call δ)) :
    vm.moments (calls ++ more) = vm.moments calls ++ (vm.afterAll calls).moments more := by
  induction calls generalizing vm with
  | nil => rfl
  | cons call rest ih =>
    cases call with
    | cycle display keys => simp [moments, ih, after]
    | tick => simp [moments, ih, after]

/-- A cycle more brings the instruction that it completes, if it does. -/
theorem moments_concat_cycle (vm : Vm δ) (past : List (Call δ)) (display : Display δ)
    (keys : KeySet) :
    vm.moments (past ++ [.cycle display keys]) =
      vm.moments past ++ ((vm.afterAll past).execution? display keys).toList.map .executed := by
  rw [moments_append, moments, moments, List.append_nil]

/-- A tick more brings a tick. -/
theorem moments_concat_tick (vm : Vm δ) (past : List (Call δ)) :
    vm.moments (past ++ [.tick]) = vm.moments past ++ [.ticked] :=
  moments_append vm past [.tick]

/-! ## One call -/

/-- A cycle leaves a timer at what its instruction puts into it, if it is executed and puts anything. -/
theorem value_cycle (vm : Vm δ) (display : Display δ) (keys : KeySet) (timer : Timer) :
    (vm.cycle display keys).2.machine.timers.value timer =
      ((vm.execution? display keys).bind (Execution.setting? timer)).getD
        (vm.machine.timers.value timer) := by
  rcases execution?_cases display keys vm with
    ⟨-, hnone, hsame⟩ | ⟨ins, e, redraw, hexec, hafter, hsome⟩
  · rw [hnone, hsame]
    rfl
  · rw [hsome, hafter]
    exact hexec.completes.value timer

/-- A cycle whose instruction does not set a timer leaves it alone. -/
theorem value_cycle_of_ne {timer : Timer}
    (h : ∀ ins, vm.machine.fetch = .ok ins → ins.source? timer = none) (display : Display δ)
    (keys : KeySet) :
    (vm.cycle display keys).2.machine.timers.value timer = vm.machine.timers.value timer := by
  rcases (turn_cycle display keys vm).fatal_or_executes with
    ⟨-, hsame⟩ | ⟨-, ins, e, redraw, hexec, hafter⟩
  · rw [hsame]
  · rw [hafter]
    have hvalue := hexec.completes.value timer
    rwa [h ins hexec.fetched] at hvalue

/-- Either timer loses one in a tick, if it has one to lose. -/
theorem toNat_value_tick (vm : Vm δ) (timer : Timer) :
    (vm.tick.machine.timers.value timer).toNat = (vm.machine.timers.value timer).toNat - 1 := by
  cases timer with
  | delay => exact Timers.toNat_delay_tick _
  | sound => exact Timers.toNat_sound_tick _

/-- Reading the delay timer is executed, and its register holds what the timer shows. -/
theorem cycle_readDelay {x : UInt8} (h : vm.machine.fetch = .ok (.readDelay x))
    (display : Display δ) (keys : KeySet) :
    let after := (vm.cycle display keys).2.machine
    vm.execution? display keys = some ⟨vm.machine, .readDelay x, after⟩ ∧
      after.operand x = vm.machine.timers.delay := by
  intro after
  obtain ⟨e, redraw, hexec, hafter, hsome⟩ := executes_of_fetch h rfl display keys
  obtain ⟨r, hr, hx, -⟩ := (inBounds_of_fetch h).exists_register (x := x) List.mem_cons_self
  obtain rfl := Except.ok.inj ((execute_readDelay hr).symm.trans hexec.executed)
  refine ⟨hsome, ?_⟩
  show (vm.cycle display keys).2.machine.operand x = _
  rw [operand_eq_v _ hx, hafter]
  exact vm.machine.v_setV_self r vm.machine.timers.delay

/-! ## A sequence of calls -/

/-- **A timer shows what its past leaves it at**, if it starts at zero. -/
theorem value_afterAll {timer : Timer} (hzero : vm.machine.timers.value timer = 0)
    (calls : List (Call δ)) :
    ((vm.afterAll calls).machine.timers.value timer).toNat =
      Moment.shown timer (vm.moments calls) := by
  induction calls using List.reverseRecOn with
  | nil =>
    rw [afterAll_nil, hzero]
    rfl
  | append_singleton past call ih =>
    rw [afterAll_concat]
    cases call with
    | tick =>
      rw [moments_concat_tick, after, toNat_value_tick, Moment.shown_ticked, ih]
    | cycle display keys =>
      rw [moments_concat_cycle, after, value_cycle]
      cases hx : (vm.afterAll past).execution? display keys with
      | none => simpa using ih
      | some x =>
        simp only [Option.toList_some, List.map_singleton, Moment.shown_executed, ← ih,
          Option.bind_some]
        cases x.setting? timer with
        | none => rfl
        | some b => rfl

/-- **The timers count down.** In every state that a program comes to, each timer shows what it was set
to last less the ticks since then, or zero. That is what reading the delay timer puts into a register,
and the tone plays exactly if it is positive for the sound timer. No instruction but its own sets a
timer, nor does a cycle that faults or waits; and what the sound timer shows makes no difference to
anything else, in that whatever it is changed to, all cycles to come report the same and leave the
same but for the sound timer. -/
theorem timers_count_down (memory : Memory) (seed : UInt64) (screen : δ) (calls : List (Call δ)) :
    let start := boot memory seed screen
    let vm := start.afterAll calls
    let past := start.moments calls
    (∀ timer, (vm.machine.timers.value timer).toNat =
        (Moment.lastSetting timer past).toNat - Moment.ticksSince timer past) ∧
      (∀ x, vm.machine.fetch = .ok (.readDelay x) → ∀ (display : Display δ) (keys : KeySet),
        let after := (vm.cycle display keys).2.machine
        vm.execution? display keys = some ⟨vm.machine, .readDelay x, after⟩ ∧
          (after.operand x).toNat =
            (Moment.lastSetting .delay past).toNat - Moment.ticksSince .delay past) ∧
      (vm.machine.timers.sounding = true ↔
        0 < (Moment.lastSetting .sound past).toNat - Moment.ticksSince .sound past) ∧
      (∀ timer (display : Display δ) (keys : KeySet),
        (∀ ins, vm.machine.fetch = .ok ins → ins.source? timer = none) ∨
          (vm.cycle display keys).1.outcome = .completed .waiting ∨
          (∃ pc fault, (vm.cycle display keys).1.outcome = .failed (.fatal pc fault)) →
        (vm.cycle display keys).2.machine.timers.value timer = vm.machine.timers.value timer) ∧
      ∀ (sound : UInt8) (more : List (Call δ)),
        let vm' : Vm δ :=
          { vm with machine := { vm.machine with timers := { vm.machine.timers with sound } } }
        vm.reports more = vm'.reports more ∧ (vm.afterAll more).SameButSound (vm'.afterAll more) := by
  intro start vm past
  have hshown : ∀ timer, (vm.machine.timers.value timer).toNat = Moment.shown timer past := by
    intro timer
    refine value_afterAll ?_ calls
    cases timer with
    | delay => rfl
    | sound => rfl
  refine ⟨hshown, ?_, ?_, ?_, ?_⟩
  · intro x hfetch display keys
    obtain ⟨hsome, hvalue⟩ := cycle_readDelay hfetch display keys
    refine ⟨hsome, ?_⟩
    rw [hvalue]
    exact hshown .delay
  · have hsound := hshown .sound
    rw [← Moment.shown, ← hsound]
    simp [Timers.sounding, Timers.value, Nat.pos_iff_ne_zero, ← UInt8.toNat_inj]
  · rintro timer display keys (hne | hwaits | ⟨pc, fault, hfatal⟩)
    · exact value_cycle_of_ne hne display keys
    · obtain ⟨held, hafter⟩ := (turn_cycle display keys vm).machine_of_waiting hwaits
      rw [hafter]
    · obtain ⟨-, hsame⟩ := (turn_cycle display keys vm).fatal_of_fault? (fatal_iff.1 hfatal).2
      rw [hsame]
  · intro sound more vm'
    exact afterAll_sameButSound ⟨sound, rfl⟩ more

end Vm

end Chip8
