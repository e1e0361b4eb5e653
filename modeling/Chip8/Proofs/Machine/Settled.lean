import Chip8.Proofs.Machine.Veil

/-!
# Executing does not look at the redraw flag

`Machine.settled` forgets that a picture is due. Instructions set that flag and never read it, so
forgetting it before an instruction and after it, or only after it, is the same.

* `execute_settled` says so for every instruction.
* `Machine.Alike` holds of machines that differ at most in the flag. Such machines fetch the same
  instruction (`Alike.fetch`) and execute it alike (`Alike.execute`).
-/

namespace Chip8

/-- The machine as if no picture were due. -/
def Machine.settled (m : Machine) : Machine := { m with redraw := false }

/-- The effect as if no picture were due. -/
def Effect.settled (e : Effect) : Effect := { e with machine := e.machine.settled }

namespace Machine

variable {keys : KeySet} {m m' : Machine}

/-- **No instruction looks at the redraw flag.** -/
theorem execute_settled (keys : KeySet) (ins : Instruction) (m : Machine) :
    (m.settled.execute keys ins).map Effect.settled = (m.execute keys ins).map Effect.settled :=
  execute_veiled .overRedraw keys ins m fun _ _ => rfl

/-! ## Machines that differ in the flag only -/

/-- The machines are the same, but for the redraw flag. -/
def Alike (m m' : Machine) : Prop := ∃ redraw, m' = { m with redraw }

/-- A state is like itself. -/
theorem Alike.refl (m : Machine) : m.Alike m := ⟨m.redraw, rfl⟩

/-- States are alike if they are the same once the picture is no longer due. -/
theorem alike_iff : m.Alike m' ↔ m.settled = m'.settled := by
  constructor
  · rintro ⟨redraw, rfl⟩
    rfl
  · intro h
    exact ⟨m'.redraw, congrArg (fun s : Machine => { s with redraw := m'.redraw }) h.symm⟩

/-- Such machines stand at the same instruction. -/
theorem Alike.fetch (h : m.Alike m') : m.fetch = m'.fetch := by
  obtain ⟨redraw, rfl⟩ := h
  exact fetch_congr rfl rfl

end Machine

/-- The effects are the same, but for the redraw flag. -/
structure Effect.Alike (e e' : Effect) : Prop where
  machine : e.machine.Alike e'.machine
  flow : e.flow = e'.flow
  asked : e.asked = e'.asked
  waitBegan : e.waitBegan = e'.waitBegan

/-- So are effects. -/
theorem Effect.alike_of_settled {e e' : Effect} (h : e.settled = e'.settled) : e.Alike e' := by
  have hmachine := congrArg Effect.machine h
  have hflow := congrArg Effect.flow h
  have hasked := congrArg Effect.asked h
  have hbegan := congrArg Effect.waitBegan h
  exact ⟨Machine.alike_iff.2 hmachine, hflow, hasked, hbegan⟩

/-- Machines that differ in the flag only execute an instruction with the same result, but for
that flag. -/
theorem Machine.Alike.execute {m m' : Machine} (h : m.Alike m') (keys : KeySet)
    (ins : Instruction) :
    match m.execute keys ins, m'.execute keys ins with
    | .ok e, .ok e' => e.Alike e'
    | .error stop, .error stop' => stop = stop'
    | _, _ => False := by
  have hmap : (m.execute keys ins).map Effect.settled = (m'.execute keys ins).map Effect.settled := by
    rw [← execute_settled keys ins m, ← execute_settled keys ins m', Machine.alike_iff.1 h]
  rcases cases_of_map_eq hmap with ⟨e, e', hx, hx', heffect⟩ | ⟨stop, hx, hx'⟩
  · rw [hx, hx']
    exact Effect.alike_of_settled heffect
  · rw [hx, hx']

end Chip8
