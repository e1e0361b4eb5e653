import Chip8.Proofs.Machine.Veil

/-!
# Executing without a look at time or keys

Four instructions look at what goes on outside of the machine: one reads the delay timer, two test a
key and one waits for a key. For any other, what it does is the same whatever the timers show and
whatever keys are down, but for the timers that it leaves.

* `Instruction.senses` tells the four.
* `Machine.untimed` forgets the timers, and `execute_untimed` says for every other instruction that
  forgetting them before and after, or only after, is the same.
* `Vm.SameButTimers` holds of states that differ at most in the timers. A cycle whose instruction
  is not one of the four reports the same in both and keeps them so (`cycle_sameButTimers`).
-/

namespace Chip8

/-- The instruction looks at the delay timer or at the keys. -/
def Instruction.senses : Instruction → Bool
  | .readDelay _ | .skipIfKey _ | .skipUnlessKey _ | .awaitKey _ => true
  | _ => false

/-- The machine as if the timers had run out. -/
def Machine.untimed (m : Machine) : Machine := { m with timers := {} }

/-- The effect as if the timers had run out. -/
def Effect.untimed (e : Effect) : Effect := { e with machine := e.machine.untimed }

namespace Machine

variable {keys keys' : KeySet} {m : Machine} {ins : Instruction}

/-- No other instruction looks at the keys. -/
theorem execute_of_blind (hblind : ins.senses = false) (keys keys' : KeySet) (m : Machine) :
    m.execute keys ins = m.execute keys' ins := by
  cases ins with
  | readDelay | skipIfKey | skipUnlessKey | awaitKey => cases hblind
  | _ => rfl

/-- **No other instruction looks at the timers or the keys.** -/
theorem execute_untimed (hblind : ins.senses = false) (keys keys' : KeySet) (m : Machine) :
    (m.untimed.execute keys ins).map Effect.untimed =
      (m.execute keys' ins).map Effect.untimed := by
  rw [execute_of_blind hblind keys keys']
  refine execute_veiled .overTimers keys' ins m ?_
  rintro x rfl
  cases hblind

end Machine

namespace Vm

open Machine

variable {δ : Type} {vm vm' vm'' : Vm δ}

/-! ## Cycles -/

/-- The states are the same, display included, but for the timers. -/
def SameButTimers (vm vm' : Vm δ) : Prop :=
  ∃ timers, vm' = { vm with machine := { vm.machine with timers } }

/-- A state differs from itself in nothing. -/
theorem SameButTimers.refl (vm : Vm δ) : vm.SameButTimers vm := ⟨vm.machine.timers, rfl⟩

/-- Which of two states comes first does not matter. -/
theorem SameButTimers.symm (h : vm.SameButTimers vm') : vm'.SameButTimers vm := by
  obtain ⟨timers, rfl⟩ := h
  exact ⟨vm.machine.timers, rfl⟩

/-- States that differ from a third in the timers differ from each other in them. -/
theorem SameButTimers.trans (h : vm.SameButTimers vm') (h' : vm'.SameButTimers vm'') :
    vm.SameButTimers vm'' := by
  obtain ⟨_, rfl⟩ := h
  obtain ⟨timers, rfl⟩ := h'
  exact ⟨timers, rfl⟩

/-- Passing time changes the timers only. -/
theorem sameButTimers_ticks (vm : Vm δ) (n : Nat) :
    vm.SameButTimers { vm with machine := vm.machine.ticks n } :=
  ⟨vm.machine.timers.ticks n, by rw [Machine.ticks_eq]⟩

/-- Such states look the same where the timers are hidden. -/
theorem sameButTimers_iff : vm.SameButTimers vm' ↔ vm.SameThrough .overTimers vm' := by
  constructor
  · rintro ⟨timers, rfl⟩
    exact sameThrough_timers rfl
  · rintro ⟨hmachine, hscreen⟩
    obtain ⟨timers, hm, -⟩ := exists_timers_of_veiled (fun _ => rfl) hmachine
    exact ⟨timers, by rw [← hm, hscreen]⟩

/-- The instruction to be executed looks neither at the timers nor at the keys. -/
def Blind (vm : Vm δ) : Prop := ∀ ins, vm.machine.fetch = .ok ins → ins.senses = false

/-- **One cycle of each.** States that differ in the timers only report the same and still differ
in the timers only, whatever keys are down. -/
theorem cycle_sameButTimers (h : vm.SameButTimers vm') (hblind : vm.Blind) (display : Display δ)
    (keys keys' : KeySet) :
    (vm.cycle display keys).1 = (vm'.cycle display keys').1 ∧
      (vm.cycle display keys).2.SameButTimers (vm'.cycle display keys').2 := by
  rw [sameButTimers_iff] at h ⊢
  refine cycle_through (fun _ => rfl) h ?_ display
  intro ins hf
  have huntimed : vm.machine.untimed = vm'.machine.untimed := h.machine
  calc (vm.machine.execute keys ins).map Effect.untimed
    _ = (vm.machine.untimed.execute keys ins).map Effect.untimed :=
      (execute_untimed (hblind ins hf) keys keys vm.machine).symm
    _ = (vm'.machine.untimed.execute keys ins).map Effect.untimed := by rw [huntimed]
    _ = (vm'.machine.execute keys' ins).map Effect.untimed :=
      execute_untimed (hblind ins hf) keys keys' vm'.machine

/-- A cycle whose instruction does not look at the keys does not wait for one. -/
theorem Blind.not_waiting (hblind : vm.Blind) (display : Display δ) (keys : KeySet) :
    (vm.cycle display keys).1.outcome ≠ .completed .waiting := by
  intro hout
  have hturn := turn_cycle display keys vm
  generalize vm.cycle display keys = result at hout hturn
  cases hturn with
  | waits h hw =>
    obtain ⟨x, rfl⟩ := h.completes.awaits_of_wait hw
    cases hblind _ h.fetched
  | lost | faults | runs | shows | refused => cases hout

end Vm

end Chip8
