import Chip8.Proofs.Calls

/-!
# What is seen is the frame

A picture that has been drawn on is due until a display takes it. Displays may refuse, waits come
in between, and the frame may change again in the meantime; still the flag that a picture is due
never lies.

* `Turn.picture` tells, by the outcome of a cycle, what it does to the frame and to the flag.
* `Clean log vm`: if nothing is due, the picture of the last granted request is the frame. Every
  cycle and every tick keeps it, `clean_cycle` and `clean_afterAll`.
* `pending_of_due`: a picture that is due stays due until a cycle reports that it was presented,
  and no other cycle completes before, unless it waits for a key.
* `length_displayLog`: one display call for each presentation and for each refusal.
* `display_coherent` puts them together for every run.
-/

namespace Chip8

/-- The display refused. -/
def Outcome.isRefusal : Outcome → Bool
  | .failed (.io _) => true
  | _ => false

/-- How many display calls an outcome tells of. -/
theorem Outcome.length_displayCalls (frame : Frame) (outcome : Outcome) :
    (outcome.displayCalls frame).length =
      (if outcome = .completed .presented then 1 else 0) + if outcome.isRefusal then 1 else 0 := by
  cases outcome with
  | completed status => cases status <;> rfl
  | failed e => cases e <;> rfl
  | broken d => rfl

namespace Vm

variable {δ : Type} {vm : Vm δ} {display : Display δ} {keys : KeySet} {log : List DisplayCall}

/-- What a cycle does about the picture. Only a presentation settles that it is due; a cycle that
runs on found nothing due and left the frame alone, and so does one that waits or faults. -/
theorem Turn.picture {result : Report × Vm δ} (h : Turn display keys vm result) :
    match result.1.outcome with
    | .completed .presented => result.2.machine.redraw = false
    | .failed (.io _) => result.2.machine.redraw = true
    | .completed .ran =>
      vm.machine.redraw = false ∧ result.2.machine.redraw = false ∧
        result.2.machine.frame = vm.machine.frame
    | .completed .waiting | .failed (.fatal _ _) =>
      result.2.machine.redraw = vm.machine.redraw ∧ result.2.machine.frame = vm.machine.frame
    | _ => False := by
  cases h with
  | lost => exact ⟨rfl, rfl⟩
  | faults => exact ⟨rfl, rfl⟩
  | waits h hw =>
    obtain ⟨held, hm⟩ := h.completes.machine_of_wait hw
    show (advance vm.machine _).redraw = _ ∧ (advance vm.machine _).frame = _
    rw [advance_redraw, advance_frame, hm]
    exact ⟨rfl, rfl⟩
  | runs h hw hr =>
    rcases h.completes.picture with hdue | ⟨hframe, hredraw⟩
    · rw [hr] at hdue
      cases hdue
    · exact ⟨hredraw.symm.trans hr, hr, hframe⟩
  | shows => rfl
  | refused h hw hr => exact hr

/-! ## Nothing due means nothing new -/

/-- If nothing is due, what is seen is the frame. -/
def Clean (log : List DisplayCall) (vm : Vm δ) : Prop :=
  vm.machine.redraw = false → shown log = vm.machine.frame

/-- At the start nothing has been drawn and nothing shown. -/
theorem clean_boot (memory : Memory) (seed : UInt64) (screen : δ) :
    Clean [] (boot memory seed screen) := fun _ => rfl

/-- Every cycle keeps that, its own display calls added to the others. -/
theorem clean_cycle (h : Clean log vm) (display : Display δ) (keys : KeySet) :
    Clean (log ++ vm.displayLog [.cycle display keys]) (vm.cycle display keys).2 := by
  have hp := (turn_cycle display keys vm).picture
  rw [displayLog_cycle]
  generalize vm.cycle display keys = result at hp ⊢
  obtain ⟨⟨outcome, _, _⟩, after⟩ := result
  show Clean (log ++ outcome.displayCalls after.machine.frame) after
  intro hnone
  cases outcome with
  | completed status =>
    cases status with
    | ran =>
      obtain ⟨hbefore, -, hframe⟩ := hp
      rw [Outcome.displayCalls_ran, List.append_nil, h hbefore]
      exact hframe.symm
    | presented => rw [Outcome.displayCalls_presented, shown_append_ok, Request.picture_of]
    | waiting =>
      obtain ⟨hredraw, hframe⟩ := hp
      rw [Outcome.displayCalls_waiting, List.append_nil, h (hredraw.symm.trans hnone)]
      exact hframe.symm
  | failed e =>
    cases e with
    | fatal pc fault =>
      obtain ⟨hredraw, hframe⟩ := hp
      rw [Outcome.displayCalls_fatal, List.append_nil, h (hredraw.symm.trans hnone)]
      exact hframe.symm
    | io e =>
      have hdue : after.machine.redraw = true := hp
      rw [hdue] at hnone
      cases hnone
    | _ => exact hp.elim
  | broken d => exact hp.elim

/-- What is seen stays the frame along every sequence of calls. -/
theorem clean_afterAll (h : Clean log vm) (calls : List (Call δ)) :
    Clean (log ++ vm.displayLog calls) (vm.afterAll calls) := by
  induction calls generalizing vm log with
  | nil =>
    rw [displayLog_nil, List.append_nil]
    exact h
  | cons call rest ih =>
    rw [displayLog_cons, ← List.append_assoc]
    apply ih
    cases call with
    | cycle display keys => exact clean_cycle h display keys
    | tick =>
      show Clean (log ++ []) vm.tick
      rw [List.append_nil]
      exact h

/-! ## Something due stays due until it is seen -/

/-- Where a picture is due, a cycle that completes waits or presents it, and nothing but a
presentation settles it. -/
theorem Turn.of_due {result : Report × Vm δ} (h : Turn display keys vm result)
    (hdue : vm.machine.redraw = true) :
    result.1.outcome ≠ .completed .ran ∧
      (result.1.outcome ≠ .completed .presented → result.2.machine.redraw = true) := by
  have hp := h.picture
  obtain ⟨⟨outcome, _, _⟩, after⟩ := result
  show outcome ≠ _ ∧ (outcome ≠ _ → after.machine.redraw = true)
  cases outcome with
  | completed status =>
    cases status with
    | ran =>
      obtain ⟨hbefore, -, -⟩ := hp
      rw [hdue] at hbefore
      cases hbefore
    | presented => exact ⟨nofun, fun hne => absurd rfl hne⟩
    | waiting => exact ⟨nofun, fun _ => hp.1.trans hdue⟩
  | failed e =>
    cases e with
    | fatal pc fault => exact ⟨nofun, fun _ => hp.1.trans hdue⟩
    | io e => exact ⟨nofun, fun _ => hp⟩
    | _ => exact hp.elim
  | broken d => exact hp.elim

/-- A picture that is due stays due while no cycle reports that it was presented. -/
theorem due_afterAll (hdue : vm.machine.redraw = true) (calls : List (Call δ))
    (h : ∀ report ∈ vm.reports calls, report.outcome ≠ .completed .presented) :
    (vm.afterAll calls).machine.redraw = true := by
  induction calls generalizing vm with
  | nil => exact hdue
  | cons call rest ih =>
    cases call with
    | cycle display keys =>
      have hfirst := h _ List.mem_cons_self
      have hstill := ((turn_cycle display keys vm).of_due hdue).2 hfirst
      exact ih hstill fun report hmem => h report (List.mem_cons_of_mem _ hmem)
    | tick => exact ih hdue h

/-- The picture waits to be seen: whatever calls follow, as long as no cycle among them reports a
presentation, it is still due, and the next cycle that completes waits for a key or presents it. -/
def Pending (vm : Vm δ) : Prop :=
  ∀ more : List (Call δ),
    (∀ report ∈ vm.reports more, report.outcome ≠ .completed .presented) →
    (vm.afterAll more).machine.redraw = true ∧
      ∀ (display : Display δ) (keys : KeySet) (status : Status),
        ((vm.afterAll more).cycle display keys).1.outcome = .completed status →
        status = .waiting ∨ status = .presented

/-- A picture that is due is pending: it stays due until a cycle shows it. -/
theorem pending_of_due (hdue : vm.machine.redraw = true) : vm.Pending := by
  intro more hmore
  have hlater := due_afterAll hdue more hmore
  refine ⟨hlater, ?_⟩
  intro display keys status hstatus
  have hran := ((turn_cycle display keys (vm.afterAll more)).of_due hlater).1
  cases status with
  | ran => exact absurd hstatus hran
  | presented => exact .inr rfl
  | waiting => exact .inl rfl

/-! ## How often the display is called -/

/-- The display is called once for each presentation and once for each refusal. -/
theorem length_displayLog (vm : Vm δ) (calls : List (Call δ)) :
    (vm.displayLog calls).length =
      (vm.reports calls).countP (fun report => report.outcome = .completed .presented) +
        (vm.reports calls).countP (fun report => report.outcome.isRefusal) := by
  induction calls generalizing vm with
  | nil => rfl
  | cons call rest ih =>
    cases call with
    | cycle display keys =>
      rw [displayLog_cons, List.length_append, displayLog_cycle, Outcome.length_displayCalls,
        reports, List.countP_cons, List.countP_cons]
      have hrest := ih (vm.cycle display keys).2
      show _ + ((vm.cycle display keys).2.displayLog rest).length = _
      simp only [decide_eq_true_eq]
      omega
    | tick => exact ih vm.tick

/-! ## Every run -/

/-- How the display calls of a cycle and the state that it leaves go with its outcome; `log` holds
the calls before it. -/
def Accounts (log made : List DisplayCall) (before after : Machine) : Outcome → Prop
  | .completed .presented =>
    made = [⟨.of after.frame, .ok ()⟩] ∧ after.redraw = false ∧ shown (log ++ made) = after.frame
  | .completed .ran => made = [] ∧ after.redraw = false ∧ shown (log ++ made) = after.frame
  | .failed (.io e) => made = [⟨.of after.frame, .error e⟩] ∧ after.redraw = true
  | .completed .waiting | .failed (.fatal _ _) =>
    made = [] ∧ after.redraw = before.redraw ∧ after.frame = before.frame
  | _ => False

/-- A cycle from a clean state accounts for its display calls. -/
theorem accounts_cycle (h : Clean log vm) (display : Display δ) (keys : KeySet) :
    Accounts log (vm.displayLog [.cycle display keys]) vm.machine
      (vm.cycle display keys).2.machine (vm.cycle display keys).1.outcome := by
  have hclean := clean_cycle h display keys
  have hp := (turn_cycle display keys vm).picture
  rw [displayLog_cycle] at hclean ⊢
  generalize vm.cycle display keys = result at hclean hp ⊢
  obtain ⟨⟨outcome, _, _⟩, after⟩ := result
  cases outcome with
  | completed status =>
    cases status with
    | ran => exact ⟨rfl, hp.2.1, hclean hp.2.1⟩
    | presented => exact ⟨rfl, hp, hclean hp⟩
    | waiting => exact ⟨rfl, hp⟩
  | failed e =>
    cases e with
    | fatal pc fault => exact ⟨rfl, hp⟩
    | io e => exact ⟨rfl, hp⟩
    | _ => exact hp.elim
  | broken d => exact hp.elim

/-- A state and the display calls so far go together. -/
structure Coherent (log : List DisplayCall) (vm : Vm δ) : Prop where
  /-- If nothing is due, the frame is seen. -/
  clean : vm.machine.redraw = false → shown log = vm.machine.frame
  /-- The next cycle makes the display calls that its outcome tells of, and no others. -/
  accounts : ∀ (display : Display δ) (keys : KeySet),
    Accounts log (vm.displayLog [.cycle display keys]) vm.machine
      (vm.cycle display keys).2.machine (vm.cycle display keys).1.outcome
  /-- A picture that it is refused is pending afterwards. -/
  refused : ∀ (display : Display δ) (keys : KeySet) (e : IoError),
    (vm.cycle display keys).1.outcome = .failed (.io e) → (vm.cycle display keys).2.Pending

/-- Where that holds, the display calls so far and the state go together. -/
theorem Clean.coherent (h : Clean log vm) : Coherent log vm where
  clean := h
  accounts := accounts_cycle h
  refused := by
    intro display keys e hrefused
    have hp := (turn_cycle display keys vm).picture
    rw [hrefused] at hp
    exact pending_of_due hp

/-- **What is seen is the frame, unless a picture is due.** For every memory image, seed and
sequence of calls the display calls so far and the state go together, and the display has been
called once for each presentation and once for each refusal. -/
theorem display_coherent (memory : Memory) (seed : UInt64) (screen : δ) (calls : List (Call δ)) :
    let start := boot memory seed screen
    Coherent (start.displayLog calls) (start.afterAll calls) ∧
      (start.displayLog calls).length =
        (start.reports calls).countP (fun report => report.outcome = .completed .presented) +
          (start.reports calls).countP (fun report => report.outcome.isRefusal) := by
  intro start
  have hclean : Clean (start.displayLog calls) (start.afterAll calls) :=
    clean_afterAll (clean_boot memory seed screen) calls
  exact ⟨hclean.coherent, length_displayLog start calls⟩

end Vm

end Chip8
