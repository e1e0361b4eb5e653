import Chip8.Proofs.Cycle
import Chip8.Proofs.Display.Journal

/-!
# Sequences of calls

Whoever drives a machine calls for cycles and for ticks of the timers, in any order, goes on
after failures as it likes, and each time has its own keys down and a display that takes the
picture or refuses it. A list of `Call`s is one such sequence.

* `Vm.boot`: the machine with a memory image and nothing executed yet.
* `Vm.afterAll` is the state after a sequence and `Vm.reports` what its cycles report.
* `afterAll_invariant`: what holds at the start and survives every cycle and every tick holds
  after every sequence.
* `Vm.displayLog` is what a sequence asks the display for, found out with a journal. Keeping the
  journal changes neither the reports nor the states: `cycle_withJournal`,
  `afterAll_withJournal`. Of a single cycle it holds the one call that the outcome tells of, or
  none: `displayLog_cycle`.
-/

namespace Chip8

/-- Something that is asked of the machine. -/
inductive Call (δ : Type) where
  /-- A cycle at a display, with keys down. -/
  | cycle (display : Display δ) (keys : KeySet)
  /-- A tick of the timers. -/
  | tick

namespace Call

variable {δ : Type}

/-- The call is a tick. -/
def isTick : Call δ → Bool
  | cycle _ _ => false
  | tick => true

/-- How many ticks a sequence has. -/
def ticksIn (calls : List (Call δ)) : Nat := calls.countP isTick

/-- A cycle is no tick. -/
theorem ticksIn_cycle (display : Display δ) (keys : KeySet) (calls : List (Call δ)) :
    ticksIn (cycle display keys :: calls) = ticksIn calls :=
  List.countP_cons_of_neg Bool.false_ne_true

/-- A tick in front is one more. -/
theorem ticksIn_tick (calls : List (Call δ)) : ticksIn (tick :: calls) = ticksIn calls + 1 :=
  List.countP_cons_of_pos rfl

/-- The same call, with a display that keeps a journal. -/
def journaled : Call δ → Call (δ × List DisplayCall)
  | cycle display keys => cycle display.journaled keys
  | tick => tick

end Call

/-- The display calls of a cycle with an outcome that leaves a frame: the frame's own request,
granted or refused, or none. -/
def Outcome.displayCalls (frame : Frame) : Outcome → List DisplayCall
  | .completed .presented => [⟨.of frame, .ok ()⟩]
  | .failed (.io e) => [⟨.of frame, .error e⟩]
  | _ => []

namespace Outcome

variable (frame : Frame)

/-- A picture that was shown was granted. -/
@[simp] theorem displayCalls_presented :
    displayCalls frame (.completed .presented) = [⟨.of frame, .ok ()⟩] := rfl

/-- Without a picture that is due there is no call. -/
@[simp] theorem displayCalls_ran : displayCalls frame (.completed .ran) = [] := rfl

/-- Nor is there one in a wait. -/
@[simp] theorem displayCalls_waiting : displayCalls frame (.completed .waiting) = [] := rfl

/-- Nor does a fault make one. -/
@[simp] theorem displayCalls_fatal (pc : UInt16) (fault : Fault) :
    displayCalls frame (.failed (.fatal pc fault)) = [] := rfl

end Outcome

namespace Vm

variable {δ : Type}

/-- A machine with a memory image, before its first cycle. -/
def boot (memory : Memory) (seed : UInt64) (screen : δ) : Vm δ := ⟨.boot memory seed, screen⟩

/-- The state after a call. -/
def after (vm : Vm δ) : Call δ → Vm δ
  | .cycle display keys => (vm.cycle display keys).2
  | .tick => vm.tick

/-- The state after a sequence of calls. -/
def afterAll (vm : Vm δ) (calls : List (Call δ)) : Vm δ := calls.foldl after vm

/-- What the cycles of a sequence report, in order. -/
def reports (vm : Vm δ) : List (Call δ) → List Report
  | [] => []
  | .cycle display keys :: rest =>
    (vm.cycle display keys).1 :: (vm.cycle display keys).2.reports rest
  | .tick :: rest => vm.tick.reports rest

variable {vm : Vm δ} {display : Display δ} {keys : KeySet} {call : Call δ}
  {calls : List (Call δ)}

/-- Without calls nothing happens. -/
@[simp] theorem afterAll_nil : vm.afterAll [] = vm := rfl

/-- The first call is made first. -/
@[simp] theorem afterAll_cons : vm.afterAll (call :: calls) = (vm.after call).afterAll calls := rfl

/-- More calls go on from the state after the first ones. -/
theorem afterAll_append (vm : Vm δ) (calls more : List (Call δ)) :
    vm.afterAll (calls ++ more) = (vm.afterAll calls).afterAll more := by
  unfold afterAll
  rw [List.foldl_append]

/-- Their reports come after those of the first ones. -/
theorem reports_append (vm : Vm δ) (calls more : List (Call δ)) :
    vm.reports (calls ++ more) = vm.reports calls ++ (vm.afterAll calls).reports more := by
  induction calls generalizing vm with
  | nil => rfl
  | cons call rest ih =>
    cases call with
    | cycle display keys =>
      rw [List.cons_append, reports, reports, ih]
      rfl
    | tick => exact ih vm.tick

/-! Sequences are also taken apart at their last call, where a statement looks back at all calls
so far. -/

/-- One call more is made in the state after the others. -/
theorem afterAll_concat (vm : Vm δ) (past : List (Call δ)) (call : Call δ) :
    vm.afterAll (past ++ [call]) = (vm.afterAll past).after call :=
  afterAll_append vm past [call]

/-- A cycle more is one report more. -/
theorem reports_concat_cycle (vm : Vm δ) (past : List (Call δ)) (display : Display δ)
    (keys : KeySet) :
    vm.reports (past ++ [.cycle display keys]) =
      vm.reports past ++ [((vm.afterAll past).cycle display keys).1] :=
  reports_append vm past [.cycle display keys]

/-- A tick more is none. -/
theorem reports_concat_tick (vm : Vm δ) (past : List (Call δ)) :
    vm.reports (past ++ [.tick]) = vm.reports past := by
  rw [reports_append]
  exact List.append_nil _

/-- **What every call preserves holds along every sequence.** -/
theorem afterAll_invariant (P : Vm δ → Prop) (start : P vm)
    (cycle : ∀ vm display keys, P vm → P (vm.cycle display keys).2)
    (tick : ∀ vm, P vm → P vm.tick) (calls : List (Call δ)) : P (vm.afterAll calls) := by
  induction calls generalizing vm with
  | nil => exact start
  | cons call rest ih =>
    apply ih
    cases call with
    | cycle display keys => exact cycle vm display keys start
    | tick => exact tick vm start

/-! ## What the display is asked for -/

/-- The machine with its display's journal so far. -/
def withJournal (vm : Vm δ) (log : List DisplayCall) : Vm (δ × List DisplayCall) :=
  ⟨vm.machine, (vm.screen, log)⟩

/-- The display calls that a sequence makes. -/
def displayLog (vm : Vm δ) (calls : List (Call δ)) : List DisplayCall :=
  ((vm.withJournal []).afterAll (calls.map .journaled)).screen.2

/-- Presenting a picture adds its display call to the journal, and is otherwise the same. -/
theorem present_withJournal (display : Display δ) (vm : Vm δ) (log : List DisplayCall) :
    (vm.withJournal log).present display.journaled =
      ((vm.present display).1, (vm.present display).2.withJournal
        (log ++ (vm.present display).1.displayCalls vm.machine.frame)) := by
  simp only [present, withJournal, Display.present_journaled, Display.noted]
  obtain ⟨answer, screen⟩ := display.present vm.machine.frame vm.screen
  cases answer with
  | ok => rfl
  | error e => rfl

/-- So does committing an effect, if it makes a display call. -/
theorem commit_withJournal (log : List DisplayCall) (e : Effect) :
    (vm.withJournal log).commit display.journaled e =
      ((vm.commit display e).1, (vm.commit display e).2.withJournal
        (log ++ (vm.commit display e).1.displayCalls e.machine.frame)) := by
  by_cases hw : e.flow = .wait
  · rw [commit_of_wait hw, commit_of_wait hw]
    rw [Outcome.displayCalls_waiting, List.append_nil]
    rfl
  · cases hr : e.machine.redraw with
    | false =>
      rw [commit_of_not_due hw hr, commit_of_not_due hw hr]
      rw [Outcome.displayCalls_ran, List.append_nil]
      rfl
    | true =>
      rw [commit_of_due hw hr, commit_of_due hw hr]
      exact present_withJournal display ⟨advance vm.machine e, vm.screen⟩ log

/-- **A cycle with a journal is the cycle without**, and its calls are noted. -/
theorem cycle_withJournal (log : List DisplayCall) :
    (vm.withJournal log).cycle display.journaled keys =
      ((vm.cycle display keys).1, (vm.cycle display keys).2.withJournal
        (log ++ (vm.cycle display keys).1.outcome.displayCalls
          (vm.cycle display keys).2.machine.frame)) := by
  cases h : vm.machine.fetch with
  | error fault =>
    have hj : (vm.withJournal log).machine.fetch = .error fault := h
    rw [cycle_of_fetch_error h, cycle_of_fetch_error hj, Outcome.displayCalls_fatal,
      List.append_nil]
    rfl
  | ok ins =>
    have hj : (vm.withJournal log).machine.fetch = .ok ins := h
    cases hx : vm.machine.execute keys ins with
    | error stop =>
      have hxj : (vm.withJournal log).machine.execute keys ins = .error stop := hx
      cases stop with
      | fault fault =>
        rw [cycle_of_fault h hx, cycle_of_fault hj hxj, Outcome.displayCalls_fatal,
          List.append_nil]
        rfl
      | defect d => exact absurd hx (Machine.execute_ne_defect (Machine.inBounds_of_fetch h) d)
    | ok e =>
      have hxj : (vm.withJournal log).machine.execute keys ins = .ok e := hx
      obtain ⟨redraw, screen, hframe⟩ := exists_commit display vm e
      rw [cycle_of_effect h hx, cycle_of_effect hj hxj, commit_withJournal, hframe]
      rfl

/-- Whatever stands in the journal at the start, the same calls are added to it. -/
theorem exists_added (vm : Vm δ) (calls : List (Call δ)) :
    ∃ added, ∀ log, (vm.withJournal log).afterAll (calls.map .journaled) =
      (vm.afterAll calls).withJournal (log ++ added) := by
  induction calls generalizing vm with
  | nil =>
    refine ⟨[], fun log => ?_⟩
    rw [List.append_nil]
    rfl
  | cons call rest ih =>
    obtain ⟨added, h⟩ := ih (vm.after call)
    cases call with
    | cycle display keys =>
      refine ⟨(vm.cycle display keys).1.outcome.displayCalls
        (vm.cycle display keys).2.machine.frame ++ added, fun log => ?_⟩
      rw [List.map_cons, afterAll_cons, afterAll_cons, ← List.append_assoc, ← h]
      exact congrArg (fun result => result.2.afterAll (rest.map .journaled))
        (cycle_withJournal log)
    | tick => exact ⟨added, h⟩

/-- **A sequence of calls with a journal is the sequence without**, and its display calls are
noted. -/
theorem afterAll_withJournal (log : List DisplayCall) :
    (vm.withJournal log).afterAll (calls.map .journaled) =
      (vm.afterAll calls).withJournal (log ++ vm.displayLog calls) := by
  obtain ⟨added, h⟩ := exists_added vm calls
  have hlog : vm.displayLog calls = added := by
    unfold displayLog
    rw [h]
    rfl
  rw [h, hlog]

/-- Without calls nothing is asked for. -/
@[simp] theorem displayLog_nil : vm.displayLog [] = [] := rfl

/-- More calls ask in the state after the first ones. -/
theorem displayLog_append (vm : Vm δ) (calls more : List (Call δ)) :
    vm.displayLog (calls ++ more) = vm.displayLog calls ++ (vm.afterAll calls).displayLog more := by
  show ((vm.withJournal []).afterAll ((calls ++ more).map .journaled)).screen.2 = _
  rw [List.map_append, afterAll_append, afterAll_withJournal, afterAll_withJournal]
  rfl

/-- A tick asks for nothing. -/
theorem displayLog_tick : vm.displayLog (.tick :: calls) = vm.tick.displayLog calls := rfl

/-- What a sequence asks for begins with what its first call does. -/
theorem displayLog_cons :
    vm.displayLog (call :: calls) = vm.displayLog [call] ++ (vm.after call).displayLog calls :=
  displayLog_append vm [call] calls

/-- **The display calls of one cycle** are those that its outcome tells of. -/
theorem displayLog_cycle :
    vm.displayLog [.cycle display keys] = (vm.cycle display keys).1.outcome.displayCalls
      (vm.cycle display keys).2.machine.frame := by
  show ((vm.withJournal []).cycle display.journaled keys).2.screen.2 = _
  rw [cycle_withJournal]
  rfl

end Vm

end Chip8
