import Chip8.Proofs.Display.Coherence
import Chip8.Proofs.Display.Gauge
import Chip8.Proofs.Machine.Settled
import Mathlib.Data.List.Forall2

/-!
# The display has no say in what the machine does

Two machines start with the same memory image and seed and are asked for the same cycles and
ticks with the same keys down, but each has displays of its own, which fail when they like and
clear in their own way. A presentation that fails leaves no trace but the redraw flag, and no
instruction reads that flag; so the machines stay the same but for it.

* `Twin`: something asked of both machines. `Report.Agrees`: what the two reports of a cycle have
  in common.
* `cycle_alike` is the step of the simulation and `afterAll_alike` the run.
* `cycle_granted` and `afterAll_granted`: as long as no display refuses, not even the flag differs,
  and the displays are asked for the same.
* `display_never_influences` puts them together.
-/

namespace Chip8

/-- Something asked of two machines at once: a tick, or a cycle of each at a display of its own. -/
inductive Twin (δ ε : Type) where
  /-- A cycle of each, with the same keys down. -/
  | cycle (first : Display δ) (second : Display ε) (keys : KeySet)
  /-- A tick of the timers of each. -/
  | tick

namespace Twin

variable {δ ε : Type}

/-- What is asked of the first machine. -/
def first : Twin δ ε → Call δ
  | cycle display _ keys => .cycle display keys
  | tick => .tick

/-- What is asked of the second machine. -/
def second : Twin δ ε → Call ε
  | cycle _ display keys => .cycle display keys
  | tick => .tick

end Twin

/-- A display that grants every request. -/
def Display.Obliging {δ : Type} (display : Display δ) : Prop :=
  ∀ frame screen, (display.present frame screen).1 = .ok ()

/-- A call whose display grants every request. -/
def Call.Obliging {δ : Type} : Call δ → Prop
  | cycle display _ => display.Obliging
  | tick => True

/-- What two machines report of a cycle in the same way: that it waits, which fault it raises and
where, what it logs, and which keys it looks at. Whether it presented something may differ. -/
structure Report.Agrees (r r' : Report) : Prop where
  waiting : r.outcome = .completed .waiting ↔ r'.outcome = .completed .waiting
  fatal : ∀ pc fault,
    r.outcome = .failed (.fatal pc fault) ↔ r'.outcome = .failed (.fatal pc fault)
  log : r.log = r'.log
  asked : r.asked = r'.asked

/-- A report agrees with itself. -/
theorem Report.Agrees.refl (r : Report) : r.Agrees r := ⟨.rfl, fun _ _ => .rfl, rfl, rfl⟩

namespace Vm

variable {δ ε : Type} {vm : Vm δ} {vm' : Vm ε} {display : Display δ} {display' : Display ε}
  {keys : KeySet} {e e' : Effect}

/-! ## Two machines that differ in the redraw flag -/

/-- Effects that differ in the flag only are committed with nothing else differing, whatever the
displays do. -/
theorem commit_alike (h : e.Alike e') (hpc : vm.machine.registers.pc = vm'.machine.registers.pc) :
    (vm.commit display e).2.machine.Alike (vm'.commit display' e').2.machine := by
  obtain ⟨redraw, screen, hafter⟩ := exists_commit display vm e
  obtain ⟨redraw', screen', hafter'⟩ := exists_commit display' vm' e'
  rw [hafter, hafter']
  obtain ⟨flag, hmachine⟩ := h.machine
  refine ⟨redraw', ?_⟩
  simp only [advance, hmachine, h.flow, hpc]
  rfl

/-- **One cycle of each.** Machines that differ in the flag only report the same and still differ
in the flag only, whatever their displays do. -/
theorem cycle_alike (h : vm.machine.Alike vm'.machine) (display : Display δ)
    (display' : Display ε) (keys : KeySet) :
    (vm.cycle display keys).1.Agrees (vm'.cycle display' keys).1 ∧
      (vm.cycle display keys).2.machine.Alike (vm'.cycle display' keys).2.machine := by
  have hfetch := h.fetch
  have hpc : vm.machine.registers.pc = vm'.machine.registers.pc := by
    obtain ⟨redraw, hm⟩ := h
    rw [hm]
  cases hf : vm.machine.fetch with
  | error fault =>
    rw [cycle_of_fetch_error hf, cycle_of_fetch_error (hfetch ▸ hf), hpc]
    exact ⟨.refl _, h⟩
  | ok ins =>
    have hf' : vm'.machine.fetch = .ok ins := hfetch ▸ hf
    have hexec := h.execute keys ins
    cases hx : vm.machine.execute keys ins with
    | ok e =>
      cases hx' : vm'.machine.execute keys ins with
      | ok e' =>
        rw [hx, hx'] at hexec
        have heffect : e.Alike e' := hexec
        rw [cycle_of_effect hf hx, cycle_of_effect hf' hx']
        refine ⟨⟨?_, ?_, ?_, heffect.asked⟩, commit_alike heffect hpc⟩
        · exact commit_eq_waiting_iff.trans (heffect.flow ▸ commit_eq_waiting_iff.symm)
        · intro pc fault
          exact iff_of_false (commit_ne_fatal pc fault) (commit_ne_fatal pc fault)
        · rw [hpc, heffect.waitBegan]
      | error stop' =>
        rw [hx, hx'] at hexec
        exact hexec.elim
    | error stop =>
      cases hx' : vm'.machine.execute keys ins with
      | ok e' =>
        rw [hx, hx'] at hexec
        exact hexec.elim
      | error stop' =>
        rw [hx, hx'] at hexec
        have hstop : stop = stop' := hexec
        subst hstop
        cases stop with
        | fault fault =>
          rw [cycle_of_fault hf hx, cycle_of_fault hf' hx', hpc]
          exact ⟨.refl _, h⟩
        | defect d => exact absurd hx (Machine.execute_ne_defect (Machine.inBounds_of_fetch hf) d)

/-- **A sequence of calls of each.** -/
theorem afterAll_alike (h : vm.machine.Alike vm'.machine) (calls : List (Twin δ ε)) :
    List.Forall₂ Report.Agrees (vm.reports (calls.map Twin.first)) (vm'.reports (calls.map Twin.second)) ∧
      (vm.afterAll (calls.map Twin.first)).machine.Alike
        (vm'.afterAll (calls.map Twin.second)).machine := by
  induction calls generalizing vm vm' with
  | nil => exact ⟨.nil, h⟩
  | cons call rest ih =>
    cases call with
    | cycle display display' keys =>
      obtain ⟨hreport, hmachine⟩ := cycle_alike h display display' keys
      obtain ⟨hreports, hafter⟩ := ih hmachine
      exact ⟨.cons hreport hreports, hafter⟩
    | tick =>
      obtain ⟨redraw, hm⟩ := h
      have htick : vm.tick.machine.Alike vm'.tick.machine := by
        refine ⟨redraw, ?_⟩
        simp only [tick, hm]
        rfl
      exact ih htick

/-! ## Displays that grant everything -/

/-- How an effect is committed where the display does not refuse. -/
def granted (m : Machine) (e : Effect) : Outcome × Machine :=
  if e.flow = .wait then (.completed .waiting, advance m e)
  else if e.machine.redraw then (.completed .presented, { advance m e with redraw := false })
  else (.completed .ran, advance m e)

/-- Unless the display refuses, nothing of a commit depends on it. -/
theorem commit_eq_granted (h : (vm.commit display e).1.isRefusal = false) :
    (vm.commit display e).1 = (granted vm.machine e).1 ∧
      (vm.commit display e).2.machine = (granted vm.machine e).2 := by
  unfold granted
  by_cases hw : e.flow = .wait
  · rw [commit_of_wait hw, if_pos hw]
    exact ⟨rfl, rfl⟩
  · rw [if_neg hw]
    cases hr : e.machine.redraw with
    | false =>
      rw [commit_of_not_due hw hr]
      exact ⟨rfl, rfl⟩
    | true =>
      rw [commit_of_due hw hr] at h ⊢
      unfold present at h ⊢
      split
      · exact ⟨rfl, rfl⟩
      · rename_i hp
        rw [hp] at h
        cases h

/-- Equal machines whose displays do not refuse report the same, stay equal, and ask their
displays for the same. -/
theorem cycle_granted (hm : vm.machine = vm'.machine)
    (h : (vm.cycle display keys).1.outcome.isRefusal = false)
    (h' : (vm'.cycle display' keys).1.outcome.isRefusal = false) :
    (vm.cycle display keys).1 = (vm'.cycle display' keys).1 ∧
      (vm.cycle display keys).2.machine = (vm'.cycle display' keys).2.machine := by
  cases hf : vm.machine.fetch with
  | error fault =>
    rw [cycle_of_fetch_error hf, cycle_of_fetch_error (hm ▸ hf), hm]
    exact ⟨rfl, rfl⟩
  | ok ins =>
    have hf' : vm'.machine.fetch = .ok ins := hm ▸ hf
    cases hx : vm.machine.execute keys ins with
    | ok e =>
      have hx' : vm'.machine.execute keys ins = .ok e := hm ▸ hx
      rw [cycle_of_effect hf hx] at h ⊢
      rw [cycle_of_effect hf' hx'] at h' ⊢
      obtain ⟨houtcome, hmachine⟩ := commit_eq_granted h
      obtain ⟨houtcome', hmachine'⟩ := commit_eq_granted h'
      simp only [houtcome, houtcome', hmachine, hmachine', hm, and_self]
    | error stop =>
      have hx' : vm'.machine.execute keys ins = .error stop := hm ▸ hx
      cases stop with
      | fault fault =>
        rw [cycle_of_fault hf hx, cycle_of_fault hf' hx', hm]
        exact ⟨rfl, rfl⟩
      | defect d => exact absurd hx (Machine.execute_ne_defect (Machine.inBounds_of_fetch hf) d)

/-- No display of a run refused. -/
def Granted (reports : List Report) : Prop :=
  ∀ report ∈ reports, report.outcome.isRefusal = false

/-- As long as no display refuses, both machines stay equal, and their displays are asked for the
same. -/
theorem afterAll_granted (hm : vm.machine = vm'.machine) (calls : List (Twin δ ε))
    (h : Granted (vm.reports (calls.map Twin.first)))
    (h' : Granted (vm'.reports (calls.map Twin.second))) :
    (vm.afterAll (calls.map Twin.first)).machine = (vm'.afterAll (calls.map Twin.second)).machine ∧
      vm.displayLog (calls.map Twin.first) = vm'.displayLog (calls.map Twin.second) := by
  induction calls generalizing vm vm' with
  | nil => exact ⟨hm, rfl⟩
  | cons call rest ih =>
    cases call with
    | cycle display display' keys =>
      have hfirst := h _ List.mem_cons_self
      have hfirst' := h' _ List.mem_cons_self
      obtain ⟨hreport, hmachine⟩ := cycle_granted hm hfirst hfirst'
      obtain ⟨hafter, hlog⟩ := ih hmachine (fun r hr => h r (List.mem_cons_of_mem _ hr))
        fun r hr => h' r (List.mem_cons_of_mem _ hr)
      refine ⟨hafter, ?_⟩
      calc vm.displayLog (.cycle display keys :: rest.map Twin.first)
        _ = vm.displayLog [.cycle display keys] ++
            (vm.cycle display keys).2.displayLog (rest.map Twin.first) := displayLog_cons
        _ = vm'.displayLog [.cycle display' keys] ++
            (vm'.cycle display' keys).2.displayLog (rest.map Twin.second) := by
          rw [displayLog_cycle, displayLog_cycle, hreport, hmachine, hlog]
        _ = vm'.displayLog (.cycle display' keys :: rest.map Twin.second) := displayLog_cons.symm
    | tick =>
      have htick : vm.tick.machine = vm'.tick.machine := congrArg Machine.tick hm
      exact ih htick h h'

/-- As long as no display refuses, the displays of both machines are called equally often and show
the same in the end, whatever way they have to clear. -/
theorem gauges_granted (hm : vm.machine = vm'.machine) (calls : List (Twin δ ε))
    (h : Granted (vm.reports (calls.map Twin.first)))
    (h' : Granted (vm'.reports (calls.map Twin.second))) {g : Gauge δ} {g' : Gauge ε}
    (hread : ∀ call ∈ calls.map Twin.first, call.ReadBy g)
    (hread' : ∀ call ∈ calls.map Twin.second, call.ReadBy g')
    (hcalls : g.calls vm.screen = g'.calls vm'.screen)
    (hseen : g.seen vm.screen = g'.seen vm'.screen) :
    g.calls (vm.afterAll (calls.map Twin.first)).screen =
        g'.calls (vm'.afterAll (calls.map Twin.second)).screen ∧
      g.seen (vm.afterAll (calls.map Twin.first)).screen =
        g'.seen (vm'.afterAll (calls.map Twin.second)).screen := by
  have hlog := (afterAll_granted hm calls h h').2
  obtain ⟨hafter, hsees⟩ := gauge_afterAll vm _ hread
  obtain ⟨hafter', hsees'⟩ := gauge_afterAll vm' _ hread'
  rw [hafter, hafter', hsees, hsees', hlog, hcalls, hseen]
  exact ⟨rfl, rfl⟩

/-- A run at displays that grant every request is granted. -/
theorem granted_of_obliging (vm : Vm δ) (calls : List (Call δ))
    (h : ∀ call ∈ calls, call.Obliging) : Granted (vm.reports calls) := by
  induction calls generalizing vm with
  | nil => exact fun _ hmem => absurd hmem List.not_mem_nil
  | cons call rest ih =>
    have hrest := ih (vm.after call) fun c hc => h c (List.mem_cons_of_mem _ hc)
    cases call with
    | tick => exact hrest
    | cycle display keys =>
      have hgrants : display.Obliging := h _ List.mem_cons_self
      intro report hmem
      rcases List.mem_cons.1 hmem with rfl | hmem
      · rcases (turn_cycle display keys vm).graceful with ⟨_, ho⟩ | ⟨_, ho⟩ | ⟨err, ho, hrefused⟩
        · rw [ho]
          rfl
        · rw [ho]
          rfl
        · rw [hgrants] at hrefused
          cases hrefused
      · exact hrest report hmem

/-- **The display never influences the machine.** Two machines with the same memory image and seed
are asked for the same, at displays of any kind. After every sequence of calls they are the same
but for the redraw flag, and their reports agree cycle by cycle: on which cycles wait, on which
fault and where, on the log and on the keys looked at. If no display refuses, both displays have
been called equally often, and the picture last granted is the same. Whoever reads calls and
picture off the displays themselves finds that too, also where one of them has a way of its own to
clear and the other draws a blank frame instead. -/
theorem display_never_influences (memory : Memory) (seed : UInt64) (screen : δ) (screen' : ε)
    (calls : List (Twin δ ε)) :
    let start := boot memory seed screen
    let start' := boot memory seed screen'
    let one := calls.map Twin.first
    let other := calls.map Twin.second
    (start.afterAll one).machine.Alike (start'.afterAll other).machine ∧
      List.Forall₂ Report.Agrees (start.reports one) (start'.reports other) ∧
      (Granted (start.reports one) → Granted (start'.reports other) →
        (start.displayLog one).length = (start'.displayLog other).length ∧
        shown (start.displayLog one) = shown (start'.displayLog other) ∧
        ∀ (g : Gauge δ) (g' : Gauge ε), (∀ call ∈ one, call.ReadBy g) →
          (∀ call ∈ other, call.ReadBy g') → g.calls screen = g'.calls screen' →
          g.seen screen = g'.seen screen' →
          g.calls (start.afterAll one).screen = g'.calls (start'.afterAll other).screen ∧
            g.seen (start.afterAll one).screen = g'.seen (start'.afterAll other).screen) := by
  intro start start' one other
  have hstart : start.machine = start'.machine := rfl
  have halike : start.machine.Alike start'.machine := .refl _
  obtain ⟨hreports, hmachine⟩ := afterAll_alike halike calls
  refine ⟨hmachine, hreports, ?_⟩
  intro h h'
  have hlog : start.displayLog one = start'.displayLog other :=
    (afterAll_granted hstart calls h h').2
  refine ⟨congrArg List.length hlog, congrArg shown hlog, ?_⟩
  intro g g' hread hread' hcalls hseen
  exact gauges_granted hstart calls h h' hread hread' hcalls hseen

end Vm

/-! ## Two recorders -/

namespace Recorder

open Vm

/-- A recorder with no call to fail grants every request. -/
theorem obliging_display : (display []).Obliging := by
  intro frame r
  unfold Display.present
  split
  · rfl
  · rfl

/-- So does one that can only draw. -/
theorem obliging_drawOnly : (drawOnly []).Obliging := by
  intro frame r
  unfold Display.present
  split
  · rfl
  · rfl

/-- A tick, or a cycle with some keys down, of a machine whose recorder tells clearing from drawing
and of one whose recorder can only draw. -/
def pair : Option KeySet → Twin Recorder Recorder
  | some keys => .cycle (display []) (drawOnly []) keys
  | none => .tick

/-- What holds of cycles and of ticks holds of one side of every pair. -/
theorem forall_mem_pairs {side : Twin Recorder Recorder → Call Recorder}
    {P : Call Recorder → Prop} (cycle : ∀ keys, P (side (pair (some keys))))
    (tick : P (side (pair none))) (steps : List (Option KeySet)) :
    ∀ call ∈ (steps.map pair).map side, P call := by
  intro call hmem
  rw [List.map_map, List.mem_map] at hmem
  obtain ⟨step, -, rfl⟩ := hmem
  cases step with
  | some keys => exact cycle keys
  | none => exact tick

/-- Of two recorders that never refuse, one that tells clearing from drawing and one that can only
draw, both count as many calls and show the same frame, whatever the machine does. -/
theorem calls_shown_eq (memory : Memory) (seed : UInt64) (steps : List (Option KeySet)) :
    let r := ((boot memory seed {}).afterAll ((steps.map pair).map Twin.first)).screen
    let r' := ((boot memory seed {}).afterAll ((steps.map pair).map Twin.second)).screen
    r.calls = r'.calls ∧ r.shown = r'.shown := by
  have hfirst : Granted ((boot memory seed {}).reports ((steps.map pair).map Twin.first)) :=
    granted_of_obliging _ _ (forall_mem_pairs (fun _ => obliging_display) trivial steps)
  have hsecond : Granted ((boot memory seed {}).reports ((steps.map pair).map Twin.second)) :=
    granted_of_obliging _ _ (forall_mem_pairs (fun _ => obliging_drawOnly) trivial steps)
  have hread : ∀ call ∈ (steps.map pair).map Twin.first, call.ReadBy gauge :=
    forall_mem_pairs (fun _ => gauge_reads_display []) trivial steps
  have hread' : ∀ call ∈ (steps.map pair).map Twin.second, call.ReadBy gauge :=
    forall_mem_pairs (fun _ => gauge_reads_drawOnly []) trivial steps
  exact gauges_granted rfl (steps.map pair) hfirst hsecond hread hread' rfl rfl

end Recorder

end Chip8
