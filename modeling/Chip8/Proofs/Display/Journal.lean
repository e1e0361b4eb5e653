import Chip8.Display.Basic

/-!
# Journals of display calls

To speak about what a display is asked for, it is given a journal: `Display.journaled` passes
every request on, answers as the display answers, and notes the request with its answer at the
end of a list.

* `Request.of frame` is what is asked for to show a frame: clearing if the frame is blank,
  drawing it otherwise.
* `present_journaled`: presenting a frame is one request, the frame's own.
* `shown log` is the picture of the last request that was granted. Before the first, and after
  clearing, nothing is lit.
-/

namespace Chip8

namespace Frame

/-- A frame with no pixel lit is the blank one. -/
theorem isBlank_iff (frame : Frame) : frame.isBlank = true ↔ frame = .blank := by
  obtain ⟨bytes⟩ := frame
  unfold isBlank
  rw [Vector.all_eq_true]
  constructor
  · intro h
    unfold blank
    congr 1
    apply Vector.ext
    intro i hi
    have hz := h i hi
    rw [beq_iff_eq] at hz
    rw [hz, Vector.getElem_replicate]
  · intro h i hi
    rw [h]
    simp [blank]

end Frame

/-- What a display is asked for. -/
inductive Request where
  | clear
  | draw (frame : Frame)
  deriving DecidableEq

namespace Request

/-- The request that shows a frame. -/
def of (frame : Frame) : Request := if frame = .blank then .clear else .draw frame

/-- What is seen once a request is granted. -/
def picture : Request → Frame
  | clear => .blank
  | draw frame => frame

/-- A request for a frame asks for that frame, a blank one by clearing. -/
@[simp] theorem picture_of (frame : Frame) : (of frame).picture = frame := by
  unfold of
  split
  · rename_i h
    exact h.symm
  · rfl

end Request

/-- A request and what the display answered. -/
structure DisplayCall where
  request : Request
  answer : Except IoError Unit

/-- What is seen after a call: a refusal leaves what was seen before. -/
def DisplayCall.leaves (seen : Frame) (call : DisplayCall) : Frame :=
  match call.answer with
  | .ok () => call.request.picture
  | .error _ => seen

/-- What is seen after all calls of a journal. -/
def shown (log : List DisplayCall) : Frame := log.foldl DisplayCall.leaves .blank

/-- A request that was granted last is what is shown. -/
@[simp] theorem shown_append_ok (log : List DisplayCall) (request : Request) :
    shown (log ++ [⟨request, .ok ()⟩]) = request.picture := by
  unfold shown
  rw [List.foldl_append]
  rfl

namespace Display

variable {δ : Type}

/-- A call that is passed on and noted. -/
def noted (request : Request) (call : δ → Except IoError Unit × δ)
    (state : δ × List DisplayCall) : Except IoError Unit × (δ × List DisplayCall) :=
  let (answer, screen) := call state.1
  (answer, (screen, state.2 ++ [⟨request, answer⟩]))

/-- A display that keeps a journal. -/
def journaled (display : Display δ) : Display (δ × List DisplayCall) where
  draw frame := noted (.draw frame) (display.draw frame)
  clear := noted .clear display.clear

/-- Presenting a frame makes one call, and nothing else differs from the display without its
journal. -/
theorem present_journaled (display : Display δ) (frame : Frame) (state : δ × List DisplayCall) :
    display.journaled.present frame state =
      noted (.of frame) (display.present frame) state := by
  unfold present Request.of
  by_cases h : frame = .blank
  · have hb : frame.isBlank = true := (Frame.isBlank_iff frame).2 h
    simp only [if_pos hb, if_pos h]
    rfl
  · have hb : ¬ frame.isBlank = true := fun hb => h ((Frame.isBlank_iff frame).1 hb)
    simp only [if_neg hb, if_neg h]
    rfl

end Display

end Chip8
