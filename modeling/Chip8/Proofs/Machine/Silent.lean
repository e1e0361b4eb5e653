import Chip8.Proofs.Calls
import Chip8.Proofs.Machine.Veil

/-!
# The sound timer is only to be heard

A program can set the sound timer but not read it. So the timer has no say in anything else: states
that differ in it only report the same and differ in it only, whatever is asked of them.

* `Vm.SameButSound` holds of states that differ at most in the sound timer.
* `cycle_sameButSound` is the step, `afterAll_sameButSound` the run.
-/

namespace Chip8.Vm

open Machine

variable {δ : Type} {vm vm' : Vm δ}

/-- The states are the same, display included, but for the sound timer. -/
def SameButSound (vm vm' : Vm δ) : Prop :=
  ∃ sound, vm' =
    { vm with machine := { vm.machine with timers := { vm.machine.timers with sound } } }

/-- Such states look the same where the sound timer is hidden. -/
theorem sameButSound_iff : vm.SameButSound vm' ↔ vm.SameThrough .overSound vm' := by
  constructor
  · rintro ⟨sound, rfl⟩
    exact sameThrough_timers rfl
  · rintro ⟨hmachine, hscreen⟩
    obtain ⟨m', screen'⟩ := vm'
    obtain rfl : vm.screen = screen' := hscreen
    obtain ⟨timers, rfl, htimers⟩ := exists_timers_of_veiled (fun _ => rfl) hmachine
    have hdelay : (Veil.overSound.timers timers).delay =
        (Veil.overSound.timers vm.machine.timers).delay := by rw [htimers]
    have hrest : timers = { vm.machine.timers with sound := timers.sound } :=
      congrArg (fun delay => (⟨delay, timers.sound⟩ : Timers)) hdelay
    refine ⟨timers.sound, ?_⟩
    exact congrArg (fun t => (⟨{ vm.machine with timers := t }, vm.screen⟩ : Vm δ)) hrest

/-- **One cycle of each.** -/
theorem cycle_sameButSound (h : vm.SameButSound vm') (display : Display δ) (keys : KeySet) :
    (vm.cycle display keys).1 = (vm'.cycle display keys).1 ∧
      (vm.cycle display keys).2.SameButSound (vm'.cycle display keys).2 := by
  rw [sameButSound_iff] at h ⊢
  refine cycle_through (fun _ => rfl) h ?_ display
  intro ins _
  calc (vm.machine.execute keys ins).map (Effect.veiled .overSound)
    _ = ((vm.machine.veiled .overSound).execute keys ins).map (Effect.veiled .overSound) :=
      (execute_veiled .overSound keys ins vm.machine fun _ _ => rfl).symm
    _ = ((vm'.machine.veiled .overSound).execute keys ins).map (Effect.veiled .overSound) := by
      rw [h.machine]
    _ = (vm'.machine.execute keys ins).map (Effect.veiled .overSound) :=
      execute_veiled .overSound keys ins vm'.machine fun _ _ => rfl

/-- A tick keeps states the same but for the sound timer. -/
theorem tick_sameButSound (h : vm.SameButSound vm') : vm.tick.SameButSound vm'.tick := by
  obtain ⟨sound, rfl⟩ := h
  exact ⟨Timers.countDown sound, rfl⟩

/-- **A sequence of calls of each.** -/
theorem afterAll_sameButSound (h : vm.SameButSound vm') (calls : List (Call δ)) :
    vm.reports calls = vm'.reports calls ∧
      (vm.afterAll calls).SameButSound (vm'.afterAll calls) := by
  induction calls generalizing vm vm' with
  | nil => exact ⟨rfl, h⟩
  | cons call rest ih =>
    cases call with
    | tick => exact ih (tick_sameButSound h)
    | cycle display keys =>
      obtain ⟨hreport, hafter⟩ := cycle_sameButSound h display keys
      obtain ⟨hreports, hrest⟩ := ih hafter
      refine ⟨?_, hrest⟩
      rw [reports, reports, hreport, hreports]

end Chip8.Vm
