import Chip8.Keypad.KeySet

/-!
# Keys that are held for a while

A terminal tells when a key is typed or repeated, but never when it comes up. A key therefore
counts as held for a fixed time after it was typed last. Times are in nanoseconds after some
common start; a time before the press counts as the moment of the press.
-/

namespace Chip8

/-- When each key was typed last. -/
structure KeyHold where
  /-- For how long a typed key counts as held. -/
  hold : Nat
  /-- When each key was typed last, if it ever was. -/
  pressedAt : Vector (Option Nat) 16 := .replicate 16 none

namespace KeyHold

/-- When a key was typed last. -/
def lastPress (h : KeyHold) (k : Key) : Option Nat := h.pressedAt.get k

/-- A key was typed at a time; a byte that names no key is ignored. -/
def press (h : KeyHold) (key : UInt8) (time : Nat) : KeyHold :=
  match Key.ofByte? key with
  | some k => { h with pressedAt := h.pressedAt.setIfInBounds k (some time) }
  | none => h

/-- A key typed at `time` still counts as held at `now`. -/
def stillHeld (hold now : Nat) : Option Nat → Bool
  | some time => now - time < hold
  | none => false

/-- A key is held at a time; a byte that names no key never is. -/
def isHeld (h : KeyHold) (key : UInt8) (now : Nat) : Bool :=
  match Key.ofByte? key with
  | some k => stillHeld h.hold now (h.lastPress k)
  | none => false

/-- The keys that are held at a time. -/
def down (h : KeyHold) (now : Nat) : KeySet :=
  .ofPred fun k => stillHeld h.hold now (h.lastPress k)

/-- The bytes that are held at a time, in order. -/
def heldBytes (h : KeyHold) (now : Nat) : List UInt8 :=
  ((List.range 256).map UInt8.ofNat).filter fun b => h.isHeld b now

/-- A key press does not change how long keys are held. -/
@[simp] theorem hold_press (h : KeyHold) (key : UInt8) (time : Nat) :
    (h.press key time).hold = h.hold := by
  unfold press
  split <;> rfl

/-- A press is the last one of its own key, and leaves the last ones of the others. -/
theorem lastPress_press (h : KeyHold) (key : UInt8) (time : Nat) (k : Key) :
    (h.press key time).lastPress k = if key.toNat = k then some time else h.lastPress k := by
  unfold press Key.ofByte?
  by_cases hk : key.toNat < 16
  · rw [dif_pos hk]
    exact Vector.getElem_setIfInBounds k.isLt
  · rw [dif_neg hk, if_neg]
    have := k.isLt
    omega

end KeyHold

end Chip8
