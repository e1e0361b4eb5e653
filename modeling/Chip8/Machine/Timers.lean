/-!
# Timers

Two bytes that count down sixty times a second and stay at zero. The sound timer stands for a
tone that plays as long as it is not zero.
-/

namespace Chip8

/-- The two timers. -/
structure Timers where
  /-- The delay timer, which programs may read back. -/
  delay : UInt8 := 0
  /-- The sound timer. -/
  sound : UInt8 := 0
  deriving DecidableEq

namespace Timers

/-- One step down, or zero. -/
def countDown (b : UInt8) : UInt8 := .ofNat (b.toNat - 1)

/-- One sixtieth of a second passes. -/
def tick (t : Timers) : Timers := ⟨countDown t.delay, countDown t.sound⟩

/-- `n` sixtieths of a second pass. -/
def ticks (n : Nat) (t : Timers) : Timers := Nat.repeat tick n t

/-- The tone plays. -/
def sounding (t : Timers) : Bool := t.sound != 0

/-- One tick more is the last. -/
theorem ticks_succ (t : Timers) (n : Nat) : t.ticks (n + 1) = (t.ticks n).tick := rfl

/-- A tick may as well come before the others. -/
theorem ticks_tick (t : Timers) (n : Nat) : t.tick.ticks n = t.ticks (n + 1) := by
  induction n with
  | zero => rfl
  | succ n ih => exact congrArg tick ih

/-- Counting down is subtraction that stops at zero. -/
theorem toNat_countDown (b : UInt8) : (countDown b).toNat = b.toNat - 1 := by
  have h := b.toNat_lt
  simp only [countDown, UInt8.toNat_ofNat']
  omega

/-- A tick takes one off the delay timer, if there is one to take. -/
@[simp] theorem toNat_delay_tick (t : Timers) : t.tick.delay.toNat = t.delay.toNat - 1 :=
  toNat_countDown _

/-- It does the same to the sound timer. -/
@[simp] theorem toNat_sound_tick (t : Timers) : t.tick.sound.toNat = t.sound.toNat - 1 :=
  toNat_countDown _

end Timers

end Chip8
