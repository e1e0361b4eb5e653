import Chip8.Proofs.Cycle

/-!
# What instructions do not look at

No instruction looks at the redraw flag, none at the sound timer, and one only at the delay timer. A
`Veil` hides some of that. Executing an instruction behind a veil, and lifting none of it afterwards,
comes to the same as executing it in plain view.

* `map_bind_congr`, `map_ite_congr` and `cases_of_map_eq` are about results of which something is
  forgotten, whatever that is.
* `execute_veiled` is the one place where all instructions are gone through; the three veils that are
  used later are `Veil.overRedraw`, `Veil.overTimers` and `Veil.overSound`.
* `Vm.cycle_through`: of states that look the same through a veil that lets the redraw flag be seen, a
  cycle of each reports the same and leaves states that look the same.
-/

namespace Chip8

/-- What is hidden of the timers and of the redraw flag. To hide it again hides no more, and a timer
that is set shows nothing of what was hidden. -/
structure Veil where
  timers : Timers → Timers
  redraw : Bool → Bool
  timers_twice : ∀ t, timers (timers t) = timers t
  redraw_twice : ∀ due, redraw (redraw due) = redraw due
  delay_set : ∀ t b, timers { timers t with delay := b } = timers { t with delay := b }
  sound_set : ∀ t b, timers { timers t with sound := b } = timers { t with sound := b }

namespace Veil

/-- It hides whether a picture is due. -/
def overRedraw : Veil :=
  ⟨id, fun _ => false, fun _ => rfl, fun _ => rfl, fun _ _ => rfl, fun _ _ => rfl⟩

/-- It hides the timers. -/
def overTimers : Veil :=
  ⟨fun _ => {}, id, fun _ => rfl, fun _ => rfl, fun _ _ => rfl, fun _ _ => rfl⟩

/-- It hides the sound timer. -/
def overSound : Veil :=
  ⟨fun t => { t with sound := 0 }, id, fun _ => rfl, fun _ => rfl, fun _ _ => rfl, fun _ _ => rfl⟩

end Veil

/-- The machine behind a veil. -/
def Machine.veiled (w : Veil) (m : Machine) : Machine :=
  { m with timers := w.timers m.timers, redraw := w.redraw m.redraw }

/-- The effect behind a veil. -/
def Effect.veiled (w : Veil) (e : Effect) : Effect := { e with machine := e.machine.veiled w }

variable {w : Veil}

/-- Effects that are the same but for timers and flag look the same if these do. -/
theorem Effect.veiled_congr {e e' : Effect}
    (hrest : { e with machine := { e.machine with timers := {}, redraw := false } } =
      { e' with machine := { e'.machine with timers := {}, redraw := false } })
    (htimers : w.timers e.machine.timers = w.timers e'.machine.timers)
    (hredraw : w.redraw e.machine.redraw = w.redraw e'.machine.redraw) :
    e.veiled w = e'.veiled w := by
  have hlifted := congrArg (fun s : Effect => { s with machine :=
    { s.machine with timers := w.timers e.machine.timers, redraw := w.redraw e.machine.redraw } })
    hrest
  refine hlifted.trans ?_
  rw [htimers, hredraw]
  rfl

/-- That is so if the first one has the timers and the flag of the second one behind the veil. -/
theorem Effect.veiled_of_behind {e e' : Effect}
    (hrest : { e with machine := { e.machine with timers := {}, redraw := false } } =
      { e' with machine := { e'.machine with timers := {}, redraw := false } })
    (htimers : e.machine.timers = w.timers e'.machine.timers)
    (hredraw : e.machine.redraw = w.redraw e'.machine.redraw) : e.veiled w = e'.veiled w := by
  apply veiled_congr hrest
  · rw [htimers, w.timers_twice]
  · rw [hredraw, w.redraw_twice]

namespace Machine

/-! ## Results of which something is forgotten -/

section Forgetting

variable {α β γ : Type} {forget : β → γ}

/-- A step before which nothing differs can be taken on both sides. -/
theorem map_bind_congr (step : Except Stop α) {next other : α → Except Stop β}
    (h : ∀ a, (next a).map forget = (other a).map forget) :
    (step >>= next).map forget = (step >>= other).map forget := by
  cases step with
  | error stop => rfl
  | ok a => exact h a

/-- So can a branch on a condition in which nothing differs. -/
theorem map_ite_congr (c : Prop) [Decidable c] {yes yes' no no' : Except Stop β}
    (hyes : yes.map forget = yes'.map forget) (hno : no.map forget = no'.map forget) :
    (if c then yes else no).map forget = (if c then yes' else no').map forget := by
  split
  · exact hyes
  · exact hno

/-- Results that are the same but for what is forgotten both complete, or stop for one reason. -/
theorem cases_of_map_eq {x y : Except Stop β} (h : x.map forget = y.map forget) :
    (∃ a b, x = .ok a ∧ y = .ok b ∧ forget a = forget b) ∨
      ∃ stop, x = .error stop ∧ y = .error stop := by
  cases x with
  | ok a =>
    cases y with
    | ok b => exact .inl ⟨a, b, rfl, rfl, Except.ok.inj h⟩
    | error stop => cases h
  | error stop =>
    cases y with
    | ok b => cases h
    | error stop' =>
      cases h
      exact .inr ⟨stop, rfl, rfl⟩

end Forgetting

/-! ## One instruction -/

variable {keys : KeySet} {m m' : Machine} {ins : Instruction}

/-- An instruction that leaves timers and flag as they are looks the same behind the veil. -/
theorem map_veiled_eq {e e' : Effect}
    (hrest : { e with machine := { e.machine with timers := {}, redraw := false } } =
      { e' with machine := { e'.machine with timers := {}, redraw := false } })
    (htimers : e.machine.timers = w.timers e'.machine.timers)
    (hredraw : e.machine.redraw = w.redraw e'.machine.redraw) :
    (Except.ok e : Except Stop Effect).map (Effect.veiled w) =
      (Except.ok e').map (Effect.veiled w) :=
  congrArg Except.ok (Effect.veiled_of_behind hrest htimers hredraw)

/-- A look at the keypad looks the same behind the veil, whatever it sees. -/
theorem lookEffect_veiled (w : Veil) (m : Machine) (r : Register) (seen : Look) :
    ((m.veiled w).lookEffect r seen).veiled w = (m.lookEffect r seen).veiled w := by
  cases seen with
  | begins held => exact Effect.veiled_of_behind rfl rfl rfl
  | goesOn held => exact Effect.veiled_of_behind rfl rfl rfl
  | ends key => exact Effect.veiled_of_behind rfl rfl rfl

/-- A wait for a key does not look through a veil. -/
theorem execute_awaitKey_veiled (w : Veil) (keys : KeySet) (x : UInt8) (m : Machine) :
    ((m.veiled w).execute keys (.awaitKey x)).map (Effect.veiled w) =
      (m.execute keys (.awaitKey x)).map (Effect.veiled w) := by
  cases hr : register x with
  | error stop =>
    rw [execute, execute, hr]
    rfl
  | ok r =>
    rw [execute_awaitKey hr, execute_awaitKey hr]
    exact congrArg Except.ok (lookEffect_veiled w m r _)

/-- Nor does a store. -/
theorem store_veiled (w : Veil) (m : Machine) (data : List UInt8) :
    ((m.veiled w).store data).map (Effect.veiled w) = (m.store data).map (Effect.veiled w) :=
  map_bind_congr _ fun _ => map_ite_congr _ (map_veiled_eq rfl rfl rfl) rfl

/-- **Instructions never look at the redraw flag or the sound timer, and at the delay timer only to
read it.** -/
theorem execute_veiled (w : Veil) (keys : KeySet) (ins : Instruction) (m : Machine)
    (hdelay : ∀ x, ins = .readDelay x → (w.timers m.timers).delay = m.timers.delay) :
    ((m.veiled w).execute keys ins).map (Effect.veiled w) =
      (m.execute keys ins).map (Effect.veiled w) := by
  cases ins with
  | clear => exact congrArg Except.ok (Effect.veiled_congr rfl (w.timers_twice _) rfl)
  | jump | setIndex => exact map_veiled_eq rfl rfl rfl
  | ret | call => exact map_bind_congr _ fun _ => map_veiled_eq rfl rfl rfl
  | skipIfByte | skipUnlessByte | setByte | addByte | random | addIndex =>
    exact map_bind_congr _ fun _ => map_veiled_eq rfl rfl rfl
  | skipIfSame | skipUnlessSame | copy | or | and | xor | add | subtract | subtractFrom
  | shiftRight | shiftLeft | skipIfKey | skipUnlessKey | pointGlyph =>
    exact map_bind_congr _ fun _ => map_bind_congr _ fun _ => map_veiled_eq rfl rfl rfl
  | jumpFrom => exact map_ite_congr _ (map_veiled_eq rfl rfl rfl) rfl
  | draw =>
    exact map_bind_congr _ fun _ => map_bind_congr _ fun _ => map_bind_congr _ fun _ =>
      map_ite_congr _ rfl (congrArg Except.ok (Effect.veiled_congr rfl (w.timers_twice _) rfl))
  | readDelay x =>
    refine map_bind_congr _ fun r => congrArg Except.ok ?_
    show Effect.veiled w { machine := (m.veiled w).setV r (w.timers m.timers).delay } = _
    rw [hdelay x rfl]
    exact Effect.veiled_of_behind rfl rfl rfl
  | awaitKey x => exact execute_awaitKey_veiled w keys x m
  | setDelay =>
    exact map_bind_congr _ fun _ =>
      congrArg Except.ok (Effect.veiled_congr rfl (w.delay_set _ _) (w.redraw_twice _))
  | setSound =>
    exact map_bind_congr _ fun _ =>
      congrArg Except.ok (Effect.veiled_congr rfl (w.sound_set _ _) (w.redraw_twice _))
  | storeDecimal | save => exact map_bind_congr _ fun _ => store_veiled w m _
  | restore =>
    exact map_bind_congr _ fun _ => map_bind_congr _ fun _ => map_bind_congr _ fun _ =>
      map_veiled_eq rfl rfl rfl

/-- Machines that look the same stand at the same instruction. -/
theorem fetch_of_veiled (h : m.veiled w = m'.veiled w) : m.fetch = m'.fetch := by
  have hmemory : (m.veiled w).memory = (m'.veiled w).memory := by rw [h]
  have hregisters : (m.veiled w).registers = (m'.veiled w).registers := by rw [h]
  exact fetch_congr hmemory hregisters

/-- Where the flag can be seen, machines that look the same differ in the timers at most. -/
theorem exists_timers_of_veiled (hflag : ∀ due, w.redraw due = due)
    (h : m.veiled w = m'.veiled w) :
    ∃ timers, m' = { m with timers } ∧ w.timers m.timers = w.timers timers := by
  cases m
  cases m'
  simp only [veiled, hflag, mk.injEq] at h
  obtain ⟨rfl, rfl, rfl, htimers, rfl, rfl, rfl, rfl⟩ := h
  exact ⟨_, rfl, htimers⟩

end Machine

/-- So do effects. -/
theorem Effect.exists_timers_of_veiled {e e' : Effect} (hflag : ∀ due, w.redraw due = due)
    (h : e.veiled w = e'.veiled w) :
    ∃ timers, e' = { e with machine := { e.machine with timers } } ∧
      w.timers e.machine.timers = w.timers timers := by
  cases e
  cases e'
  simp only [veiled, mk.injEq] at h
  obtain ⟨hmachine, rfl, rfl, rfl⟩ := h
  obtain ⟨timers, rfl, htimers⟩ := Machine.exists_timers_of_veiled hflag hmachine
  exact ⟨timers, rfl, htimers⟩

namespace Vm

open Machine

variable {δ : Type} {vm vm' : Vm δ} {e e' : Effect} {keys keys' : KeySet}

/-! ## Cycles -/

/-- The machines look the same through a veil, and the displays are in the same state. -/
structure SameThrough (w : Veil) (vm vm' : Vm δ) : Prop where
  machine : vm.machine.veiled w = vm'.machine.veiled w
  screen : vm.screen = vm'.screen

/-- States are the same through a veil that hides what their timers differ in. -/
theorem sameThrough_timers {m : Machine} {screen : δ} {timers : Timers}
    (h : w.timers m.timers = w.timers timers) :
    SameThrough w ⟨m, screen⟩ ⟨{ m with timers }, screen⟩ where
  machine := by simp only [veiled, h]
  screen := rfl

/-- Effects that look the same are committed alike. -/
theorem commit_through (hflag : ∀ due, w.redraw due = due) (h : vm.SameThrough w vm')
    (he : e.veiled w = e'.veiled w) (display : Display δ) :
    (vm.commit display e).1 = (vm'.commit display e').1 ∧
      (vm.commit display e).2.SameThrough w (vm'.commit display e').2 := by
  obtain ⟨hmachine, hscreen⟩ := h
  obtain ⟨_, hm, -⟩ := exists_timers_of_veiled hflag hmachine
  obtain ⟨timers, rfl, htimers⟩ := Effect.exists_timers_of_veiled hflag he
  have hpc : vm.machine.registers.pc = vm'.machine.registers.pc := by rw [hm]
  have hadvance : advance vm'.machine { e with machine := { e.machine with timers } } =
      { advance vm.machine e with timers } := by
    unfold advance
    rw [hpc]
    rfl
  by_cases hw : e.flow = .wait
  · rw [commit_of_wait hw, commit_of_wait (by exact hw), hadvance, ← hscreen]
    exact ⟨rfl, sameThrough_timers htimers⟩
  · cases hr : e.machine.redraw with
    | false =>
      rw [commit_of_not_due hw hr, commit_of_not_due (by exact hw) (by exact hr), hadvance,
        ← hscreen]
      exact ⟨rfl, sameThrough_timers htimers⟩
    | true =>
      rw [commit_of_due hw hr, commit_of_due (by exact hw) (by exact hr), hadvance, ← hscreen]
      unfold present
      simp only [advance_frame]
      cases display.present e.machine.frame vm.screen with
      | mk answer screen =>
        cases answer with
        | ok _ =>
          exact ⟨rfl, sameThrough_timers (m := { advance vm.machine e with redraw := false }) htimers⟩
        | error err => exact ⟨rfl, sameThrough_timers htimers⟩

/-- **One cycle of each.** States that look the same and execute their instruction with results that
look the same report the same, and look the same afterwards. -/
theorem cycle_through (hflag : ∀ due, w.redraw due = due) (h : vm.SameThrough w vm')
    (hexec : ∀ ins, vm.machine.fetch = .ok ins →
      (vm.machine.execute keys ins).map (Effect.veiled w) =
        (vm'.machine.execute keys' ins).map (Effect.veiled w)) (display : Display δ) :
    (vm.cycle display keys).1 = (vm'.cycle display keys').1 ∧
      (vm.cycle display keys).2.SameThrough w (vm'.cycle display keys').2 := by
  obtain ⟨_, hm, -⟩ := exists_timers_of_veiled hflag h.machine
  have hpc : vm.machine.registers.pc = vm'.machine.registers.pc := by rw [hm]
  have hfetch := fetch_of_veiled h.machine
  cases hf : vm.machine.fetch with
  | error fault =>
    rw [cycle_of_fetch_error hf, cycle_of_fetch_error (hfetch ▸ hf), hpc]
    exact ⟨rfl, h⟩
  | ok ins =>
    have hf' : vm'.machine.fetch = .ok ins := hfetch ▸ hf
    rcases cases_of_map_eq (hexec ins hf) with ⟨e, e', hx, hx', he⟩ | ⟨stop, hx, hx'⟩
    · obtain ⟨hout, hafter⟩ := commit_through hflag h he display
      obtain ⟨_, rfl, -⟩ := Effect.exists_timers_of_veiled hflag he
      rw [cycle_of_effect hf hx, cycle_of_effect hf' hx', hout, hpc]
      exact ⟨rfl, hafter⟩
    · cases stop with
      | fault fault =>
        rw [cycle_of_fault hf hx, cycle_of_fault hf' hx', hpc]
        exact ⟨rfl, h⟩
      | defect d => exact absurd hx (execute_ne_defect (inBounds_of_fetch hf) d)

end Vm

end Chip8
