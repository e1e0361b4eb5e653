import Chip8.Display.Recorder
import Chip8.Proofs.Calls

/-!
# What a display's own state tells

A display may keep count of its calls and remember what it shows, as a recorder does. A `Gauge`
reads both off its state. The calls that the machine makes determine what a gauge reads, and it
does not matter whether the display has a way of its own to clear or clears by drawing a blank
frame.

* `Gauge.Reads`: each call to the display is counted, and a picture that it granted is seen.
* `reads_of_draw`: for a display that can only draw, drawing alone has to be read.
* `gauge_afterAll`: after a sequence of calls the gauge reads what the machine's display calls tell.
-/

namespace Chip8

/-- A way to read off a display's state how often it was called and what it shows. -/
structure Gauge (δ : Type) where
  /-- How often the display was called. -/
  calls : δ → Nat
  /-- What it shows. -/
  seen : δ → Frame

namespace Gauge

variable {δ : Type} {g : Gauge δ} {display : Display δ}

/-- A call that asks for a frame is counted, and if it is granted the frame is seen. -/
structure Notes (g : Gauge δ) (frame : Frame) (before : δ) (result : Except IoError Unit × δ) :
    Prop where
  calls : g.calls result.2 = g.calls before + 1
  seen : g.seen result.2 = DisplayCall.leaves (g.seen before) ⟨.of frame, result.1⟩

/-- The gauge notes every call to a display. -/
structure Reads (g : Gauge δ) (display : Display δ) : Prop where
  draw : ∀ frame screen, g.Notes frame screen (display.draw frame screen)
  clear : ∀ screen, g.Notes .blank screen (display.clear screen)

/-- Without a way of its own to clear, a display clears by drawing a blank frame, and the gauge
notes that too. -/
theorem reads_of_draw {draw : Frame → δ → Except IoError Unit × δ}
    (h : ∀ frame screen, g.Notes frame screen (draw frame screen)) : g.Reads { draw } where
  draw := h
  clear := h .blank

/-- Whichever way a frame is presented, it is noted. -/
theorem Reads.present (h : g.Reads display) (frame : Frame) (screen : δ) :
    g.Notes frame screen (display.present frame screen) := by
  unfold Display.present
  split
  · rename_i hb
    rw [(Frame.isBlank_iff frame).1 hb]
    exact h.clear screen
  · exact h.draw frame screen

end Gauge

/-- The gauge notes the display calls of a call, if it makes any. -/
def Call.ReadBy {δ : Type} (g : Gauge δ) : Call δ → Prop
  | cycle display _ => g.Reads display
  | tick => True

namespace Recorder

/-- What a recorder records. -/
def gauge : Gauge Recorder := ⟨calls, shown⟩

/-- A call that records a frame without counting again is noted. -/
theorem notes_call (failing : List Nat) {frame : Frame} {record : Recorder → Recorder}
    (hcalls : ∀ r, (record r).calls = r.calls) (hshown : ∀ r, (record r).shown = frame)
    (r : Recorder) : gauge.Notes frame r (call failing record r) := by
  by_cases h : r.calls + 1 ∈ failing
  · simp only [call, h, if_true]
    exact ⟨rfl, rfl⟩
  · simp only [call, h, if_false]
    exact ⟨hcalls _, (hshown _).trans (Request.picture_of frame).symm⟩

/-- A recorder that tells clearing from drawing is read by its gauge. -/
theorem gauge_reads_display (failing : List Nat) : gauge.Reads (display failing) where
  draw _ := notes_call failing (fun _ => rfl) fun _ => rfl
  clear := notes_call failing (fun _ => rfl) fun _ => rfl

/-- So is one that can only draw. -/
theorem gauge_reads_drawOnly (failing : List Nat) : gauge.Reads (drawOnly failing) :=
  Gauge.reads_of_draw fun _ => notes_call failing (fun _ => rfl) fun _ => rfl

end Recorder

namespace Vm

variable {δ : Type} {vm : Vm δ} {display : Display δ} {keys : KeySet} {g : Gauge δ}

/-- A cycle makes no display call and leaves the display alone, or it makes one, and leaves the
display as presenting the frame does. -/
theorem Turn.screen {result : Report × Vm δ} (h : Turn display keys vm result) :
    (result.1.outcome.displayCalls result.2.machine.frame = [] ∧ result.2.screen = vm.screen) ∨
      ∃ answer, result.1.outcome.displayCalls result.2.machine.frame =
          [⟨.of result.2.machine.frame, answer⟩] ∧
        display.present result.2.machine.frame vm.screen = (answer, result.2.screen) := by
  cases h with
  | lost => exact .inl ⟨rfl, rfl⟩
  | faults => exact .inl ⟨rfl, rfl⟩
  | waits => exact .inl ⟨rfl, rfl⟩
  | runs => exact .inl ⟨rfl, rfl⟩
  | shows _ _ _ hp => exact .inr ⟨_, rfl, hp⟩
  | refused _ _ _ hp => exact .inr ⟨_, rfl, hp⟩

/-- After a cycle the gauge reads what the display calls of the cycle tell. -/
theorem gauge_cycle (h : g.Reads display) (keys : KeySet) (vm : Vm δ) :
    g.calls (vm.cycle display keys).2.screen =
        g.calls vm.screen + (vm.displayLog [.cycle display keys]).length ∧
      g.seen (vm.cycle display keys).2.screen =
        (vm.displayLog [.cycle display keys]).foldl DisplayCall.leaves (g.seen vm.screen) := by
  rw [displayLog_cycle]
  rcases (turn_cycle display keys vm).screen with ⟨hnone, hsame⟩ | ⟨answer, hone, hpresent⟩
  · rw [hnone, hsame]
    exact ⟨rfl, rfl⟩
  · have hnotes := h.present (vm.cycle display keys).2.machine.frame vm.screen
    rw [hpresent] at hnotes
    rw [hone]
    exact ⟨hnotes.calls, hnotes.seen⟩

/-- **What a gauge reads after a sequence of calls** is what the display calls of the sequence
tell. -/
theorem gauge_afterAll (vm : Vm δ) (calls : List (Call δ)) (h : ∀ call ∈ calls, call.ReadBy g) :
    g.calls (vm.afterAll calls).screen = g.calls vm.screen + (vm.displayLog calls).length ∧
      g.seen (vm.afterAll calls).screen =
        (vm.displayLog calls).foldl DisplayCall.leaves (g.seen vm.screen) := by
  induction calls generalizing vm with
  | nil => exact ⟨rfl, rfl⟩
  | cons call rest ih =>
    have hfirst : call.ReadBy g := h call List.mem_cons_self
    obtain ⟨hcalls, hseen⟩ := ih (vm.after call) fun c hc => h c (List.mem_cons_of_mem _ hc)
    cases call with
    | cycle display keys =>
      obtain ⟨hcycleCalls, hcycleSeen⟩ := gauge_cycle hfirst keys vm
      rw [displayLog_cons, List.length_append, List.foldl_append, ← hcycleSeen, ← Nat.add_assoc,
        ← hcycleCalls]
      exact ⟨hcalls, hseen⟩
    | tick => exact ⟨hcalls, hseen⟩

end Vm

end Chip8
