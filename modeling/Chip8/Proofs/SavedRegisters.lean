import Chip8.Proofs.History
import Chip8.Proofs.Machine.Destinations
import Chip8.Proofs.Machine.FaultConditions

/-!
# Saved registers come back

A program saves V0 to Vx at the index register and restores them later, when the index register is
where it was. In between anything may happen: registers are overwritten, the index register moves, code
is changed, cycles fault, wait and are refused by their display. All that matters is that no instruction
that is executed stores a byte on top of the saved ones.

* `Execution.StoresAt` tells the bytes that an executed instruction stores.
* `getElem_cycle` is the step: a byte changes only when it is stored. `getElem_afterAll` is the run.
* `cycle_save` and `cycle_restore` are the two ends.
* `saved_registers_restored` puts them together.
-/

namespace Chip8

/-- The instruction stored a byte at address `i`. Only the decimal digits of a register and the
registers that are saved are ever stored. -/
def Execution.StoresAt (x : Execution) (i : Nat) : Prop :=
  x.before.registers.index.toNat ≤ i ∧ i < x.before.registers.index.toNat + x.ins.stores

/-- The bytes from `addr` on are V0 to Vr of some registers. -/
def Memory.Saves (memory : Memory) (addr : Nat) (rs : Registers) (r : Register) : Prop :=
  memory.read addr (r + 1) = .ok (rs.upTo r)

/-- The bytes of fewer registers are among them. -/
theorem Memory.Saves.of_le {memory : Memory} {addr : Nat} {rs : Registers} {r q : Register}
    (h : memory.Saves addr rs r) (hq : q ≤ r) : memory.Saves addr rs q := by
  have hle : q.val + 1 ≤ r.val + 1 := Nat.succ_le_succ hq
  have htake := Memory.read_take h hle
  rwa [rs.take_upTo r q hq] at htake

namespace Vm

open Machine

variable {δ : Type} {vm : Vm δ} {display : Display δ} {keys : KeySet} {calls : List (Call δ)}
  {i : Nat} {x : UInt8} {r : Register}

/-! ## Bytes that are not stored -/

/-- A cycle changes no byte that it does not store. -/
theorem getElem_cycle (hi : i < 4096)
    (h : ∀ ex ∈ vm.execution? display keys, ¬ ex.StoresAt i) :
    (vm.cycle display keys).2.machine.memory.bytes[i] = vm.machine.memory.bytes[i] := by
  rcases execution?_cases display keys vm with
    ⟨-, -, hsame⟩ | ⟨ins, e, redraw, hexec, hafter, hsome⟩
  · rw [hsame]
  · refine Decidable.of_not_not fun hne => h _ hsome ?_
    rw [hafter] at hne
    exact hexec.completes.stores_of_ne hi hne

/-- Nor does a sequence of calls. -/
theorem getElem_afterAll (hi : i < 4096) (h : ∀ ex ∈ vm.executions calls, ¬ ex.StoresAt i) :
    (vm.afterAll calls).machine.memory.bytes[i] = vm.machine.memory.bytes[i] := by
  induction calls generalizing vm with
  | nil => rfl
  | cons call rest ih =>
    cases call with
    | tick =>
      have hrest : ∀ ex ∈ vm.tick.executions rest, ¬ ex.StoresAt i := h
      exact ih hrest
    | cycle display keys =>
      have hrest : ∀ ex ∈ (vm.cycle display keys).2.executions rest, ¬ ex.StoresAt i :=
        fun ex hmem => h ex (List.mem_append_right _ hmem)
      have hfirst : ∀ ex ∈ vm.execution? display keys, ¬ ex.StoresAt i :=
        fun ex hmem => h ex (List.mem_append_left _ (Option.mem_toList.2 hmem))
      exact (ih hrest).trans (getElem_cycle hi hfirst)

/-- Saved registers stay where they are when nothing is stored there. -/
theorem saves_afterAll {addr : Nat} {rs : Registers} (hsaves : vm.machine.memory.Saves addr rs r)
    (h : ∀ ex ∈ vm.executions calls, ∀ i, addr ≤ i → i ≤ addr + r.val → ¬ ex.StoresAt i) :
    (vm.afterAll calls).machine.memory.Saves addr rs r := by
  refine (Memory.read_congr ?_).trans hsaves
  intro i hi hlow hhigh
  exact getElem_afterAll hi fun ex hmem => h ex hmem i hlow (by omega)

/-! ## Saving and restoring -/

/-- A cycle that saves registers without a fault leaves them at the index register, stores nothing
else, and does not move the index register. -/
theorem cycle_save (hreg : register x = .ok r) (hsave : vm.machine.fetch = .ok (.save x))
    (hf : vm.machine.faultOf (.save x) = none) (display : Display δ) (keys : KeySet) :
    let after := (vm.cycle display keys).2.machine
    after.memory.Saves vm.machine.registers.index.toNat vm.machine.registers r ∧
      after.registers.index = vm.machine.registers.index ∧
      ∀ i (_ : i < 4096), ¬ (vm.machine.registers.index.toNat ≤ i ∧
        i ≤ vm.machine.registers.index.toNat + x.toNat) →
          after.memory.bytes[i] = vm.machine.memory.bytes[i] := by
  intro after
  obtain ⟨e, redraw, hexec, hafter, hsome⟩ := executes_of_fetch hsave hf display keys
  obtain ⟨hwrite, hregs⟩ := write_of_store ((execute_save hreg).symm.trans hexec.executed)
  refine ⟨?_, ?_, ?_⟩
  · have hread := Memory.read_of_write hwrite
    rw [Registers.length_upTo] at hread
    show (vm.cycle display keys).2.machine.memory.Saves _ _ _
    rw [hafter]
    exact hread
  · show (vm.cycle display keys).2.machine.registers.index = _
    rw [hafter]
    show e.machine.registers.index = _
    rw [hregs]
  · intro i hi hout
    apply getElem_cycle hi
    intro ex hmem hstores
    obtain rfl := Option.some.inj (hsome.symm.trans hmem)
    exact hout ⟨hstores.1, Nat.le_of_lt_succ hstores.2⟩

/-- A cycle that restores registers from where they are saved does not fault. They are what they were,
the others, the index register and memory are as before. -/
theorem cycle_restore {rs : Registers} (hx : x.toNat = r.val)
    (hrestore : vm.machine.fetch = .ok (.restore x))
    (hsaves : vm.machine.memory.Saves vm.machine.registers.index.toNat rs r)
    (display : Display δ) (keys : KeySet) :
    let after := (vm.cycle display keys).2.machine
    vm.machine.fault? = none ∧
      (∀ q, after.v q = if q ≤ r then rs.get q else vm.machine.v q) ∧
      after.registers.index = vm.machine.registers.index ∧
      after.memory = vm.machine.memory := by
  intro after
  have hf : vm.machine.faultOf (.restore x) = none := by
    have hle := Memory.le_of_read hsaves
    exact if_neg (by omega)
  obtain ⟨e, redraw, hexec, hafter, -⟩ := executes_of_fetch hrestore hf display keys
  obtain ⟨data, hread, hm⟩ := hexec.completes.machine_of_restore
  rw [hx] at hread
  obtain rfl : rs.upTo r = data := Except.ok.inj (hsaves.symm.trans hread)
  have hmachine : after = { advance vm.machine e with redraw } := hafter
  refine ⟨(fault?_of_fetch hrestore).trans hf, ?_, ?_, ?_⟩
  · intro q
    rw [hmachine]
    show e.machine.v q = _
    rw [hm]
    exact vm.machine.registers.get_overwrite_upTo r q rs
  · rw [hmachine]
    show e.machine.registers.index = _
    rw [hm]
  · rw [hmachine]
    show e.machine.memory = _
    rw [hm]

/-- **Saved registers come back.** A cycle saves V0 to Vx without a fault, and any sequence of calls
follows in which no executed instruction stores a byte among theirs. When the index register is then
where it was, restoring V0 to Vz, with `z` up to `x`, does not fault and sets them to what they were
when they were saved, whatever they hold by then. The other registers, the index register and memory are
left as they are; and the save had changed neither the index register nor any byte outside. -/
theorem saved_registers_restored (hsave : vm.machine.fetch = .ok (.save x))
    (hgoes : ∀ pc fault, (vm.cycle display keys).1.outcome ≠ .failed (.fatal pc fault))
    (hkept : ∀ ex ∈ (vm.cycle display keys).2.executions calls,
      ∀ i, vm.machine.registers.index.toNat ≤ i →
        i ≤ vm.machine.registers.index.toNat + x.toNat → ¬ ex.StoresAt i) :
    let addr := vm.machine.registers.index
    let saved := (vm.cycle display keys).2
    let later := saved.afterAll calls
    (saved.machine.registers.index = addr ∧
      ∀ i (_ : i < 4096), ¬ (addr.toNat ≤ i ∧ i ≤ addr.toNat + x.toNat) →
        saved.machine.memory.bytes[i] = vm.machine.memory.bytes[i]) ∧
    ∀ z : UInt8, z.toNat ≤ x.toNat → later.machine.fetch = .ok (.restore z) →
      later.machine.registers.index = addr → ∀ (display' : Display δ) (keys' : KeySet),
        let restored := (later.cycle display' keys').2
        (∀ pc fault, (later.cycle display' keys').1.outcome ≠ .failed (.fatal pc fault)) ∧
          (∀ q : Register, q.val ≤ z.toNat → restored.machine.v q = vm.machine.v q) ∧
          (∀ q : Register, z.toNat < q.val → restored.machine.v q = later.machine.v q) ∧
          restored.machine.registers.index = addr ∧
          restored.machine.memory = later.machine.memory := by
  intro addr saved later
  obtain ⟨r, hreg, hx, -⟩ :=
    (inBounds_of_fetch hsave).exists_register (x := x) List.mem_cons_self
  have hf : vm.machine.faultOf (.save x) = none :=
    (fault?_of_fetch hsave).symm.trans (not_fatal_iff.1 hgoes)
  obtain ⟨hsaves, hindex, hbytes⟩ := cycle_save hreg hsave hf display keys
  refine ⟨⟨hindex, hbytes⟩, ?_⟩
  intro z hz hrestore hback display' keys' restored
  obtain ⟨q, -, hq, -⟩ :=
    (inBounds_of_fetch hrestore).exists_register (x := z) List.mem_cons_self
  have hqr : q ≤ r := by
    show q.val ≤ r.val
    omega
  have hlater : later.machine.memory.Saves addr.toNat vm.machine.registers q :=
    (saves_afterAll hsaves (by rwa [← hx])).of_le hqr
  rw [← hback] at hlater
  obtain ⟨hnone, hv, hstays, hmemory⟩ := cycle_restore hq hrestore hlater display' keys'
  refine ⟨not_fatal_iff.2 hnone, ?_, ?_, hstays.trans hback, hmemory⟩
  · intro p hp
    have hle : p ≤ q := Nat.le_trans hp (Nat.le_of_eq hq)
    exact (hv p).trans (if_pos hle)
  · intro p hp
    have hnot : ¬ p ≤ q := Nat.not_le.2 (Nat.lt_of_le_of_lt (Nat.le_of_eq hq.symm) hp)
    exact (hv p).trans (if_neg hnot)

/-- A program that saves V0 and V1, clears V0 and restores both. -/
def saveAndClear : List UInt8 := [0xF1, 0x55, 0x60, 0x00, 0xF1, 0x65]

/-- Memory with that program. -/
def saveAndClearMemory : Memory := ⟨overwrite Memory.fresh.bytes Memory.programStart saveAndClear⟩

/-- The machine with that program, seven in V0, and the index register at `0x300`. -/
def sevenInV0 : Vm Recorder :=
  ⟨({ Machine.boot saveAndClearMemory 0 with registers := { index := 0x300 } }).setV .first 7, {}⟩

/-- The cycle that clears V0, and a tick. -/
def clearV0 : List (Call Recorder) := [.cycle (Recorder.display []) .empty, .tick]

/-- That machine when V0 and V1 are saved and V0 is cleared. -/
def clearedV0 : Vm Recorder := (sevenInV0.cycle (Recorder.display []) .empty).2.afterAll clearV0

/-- The seven that the second instruction clears is back after the third. -/
theorem saved_registers_restored_cleared :
    Memory.ofProgram ⟨[saveAndClear], none⟩ = .ok (6, saveAndClearMemory) ∧
      sevenInV0.machine.fetch = .ok (.save 1) ∧ clearedV0.machine.v .first = 0 ∧
      clearedV0.machine.fetch = .ok (.restore 1) ∧
      (clearedV0.cycle (Recorder.display []) .empty).2.machine.v .first = 7 := by
  have hread : (⟨[saveAndClear], none⟩ : Reader).readAll = .ok saveAndClear := rfl
  have hload : Memory.ofProgram ⟨[saveAndClear], none⟩ = .ok (6, saveAndClearMemory) :=
    Memory.load_eq_ok Memory.fresh hread (by decide)
  -- one evaluation of the program for everything that is read off its machines
  have hrun : sevenInV0.machine.Finds 0xF155 ∧ clearedV0.machine.Finds 0xF165 ∧
      clearedV0.machine.registers.index = sevenInV0.machine.registers.index ∧
      clearedV0.machine.v .first = 0 ∧
      ∀ ex ∈ (sevenInV0.cycle (Recorder.display []) .empty).2.executions clearV0,
        ex.ins.stores = 0 := by
    decide +kernel
  obtain ⟨hfirst, hthird, hback, hcleared, hstores⟩ := hrun
  have hsave : sevenInV0.machine.fetch = .ok (.save 1) := hfirst.fetch
  have hrestore : clearedV0.machine.fetch = .ok (.restore 1) := hthird.fetch
  have hgoes : ∀ pc fault, (sevenInV0.cycle (Recorder.display []) .empty).1.outcome ≠
      .failed (.fatal pc fault) := by
    apply not_fatal_iff.2
    rw [fault?_of_fetch hsave]
    rfl
  have hkept : ∀ ex ∈ (sevenInV0.cycle (Recorder.display []) .empty).2.executions clearV0,
      ∀ i, sevenInV0.machine.registers.index.toNat ≤ i →
        i ≤ sevenInV0.machine.registers.index.toNat + (1 : UInt8).toNat → ¬ ex.StoresAt i := by
    intro ex hmem i _ _ hat
    have hnone := hstores ex hmem
    unfold Execution.StoresAt at hat
    omega
  obtain ⟨-, hrestored⟩ := saved_registers_restored hsave hgoes hkept
  obtain ⟨-, hv, -⟩ := hrestored 1 (Nat.le_refl _) hrestore hback (Recorder.display []) .empty
  have hseven : sevenInV0.machine.v .first = 7 := rfl
  have hsame : (clearedV0.cycle (Recorder.display []) .empty).2.machine.v .first =
      sevenInV0.machine.v .first := by
    unfold clearedV0
    exact hv .first (Nat.zero_le _)
  exact ⟨hload, hsave, hcleared, hrestore, hsame.trans hseven⟩

end Vm

end Chip8
