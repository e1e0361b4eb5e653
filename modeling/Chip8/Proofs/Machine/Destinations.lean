import Chip8.Display.Recorder
import Chip8.Memory.Program
import Chip8.Proofs.Cycle

/-!
# An instruction changes its destinations only

Every instruction has its places in the machine to which it may write, and leaves all others as they
are. Operands may coincide: where the register of a result is VF, the flag replaces the result, but
nothing else is touched.

* `Instruction.sets` tells which of the registers V0 to VF an instruction may set.
* `Destinations ins m m'`: wherever the state `m'` differs from `m`, the place is a destination of
  `ins`. The bytes of memory are told by their addresses, the other parts of the machine as a whole.
* `Completes.destinations` says so of an instruction that completes; each part has a lemma before it.
* `cycle_changes_destinations` says so of every cycle that does not fault.
-/

namespace Chip8

namespace Instruction

/-- The instruction may set the register. -/
def sets (r : Register) : Instruction → Bool
  | setByte x _ | addByte x _ | copy x _ | or x _ | and x _ | xor x _ | random x _ | readDelay x
  | awaitKey x => x.toNat == r.val
  | add x _ | subtract x _ | subtractFrom x _ | shiftRight x | shiftLeft x =>
    x.toNat == r.val || r == .flag
  | draw _ _ _ => r == .flag
  | restore x => r.val ≤ x.toNat
  | _ => false

variable {ins : Instruction} {r : Register}

/-- An instruction that assigns to a register sets it. -/
theorem sets_of_assigns (h : ins.assigns r = true) : ins.sets r = true := by
  cases ins <;> first | exact h | cases h

/-- One that assigns to it with a flag sets it and VF. -/
theorem sets_of_assignsFlagged (h : ins.assignsFlagged r = true) :
    ins.sets r = true ∧ ins.sets .flag = true := by
  cases ins <;> simp_all [assignsFlagged, sets]

/-- Bytes are stored by two instructions. -/
theorem stores_pos (h : 0 < ins.stores) :
    (∃ x, ins = .storeDecimal x ∧ ins.stores = 3) ∨ ∃ x, ins = .save x ∧ ins.stores = x.toNat + 1 := by
  cases ins with
  | storeDecimal x => exact .inl ⟨x, rfl, rfl⟩
  | save x => exact .inr ⟨x, rfl, rfl⟩
  | _ => exact absurd h (Nat.lt_irrefl 0)

/-- The index register is set by three instructions. -/
theorem points_iff : ins.points = true ↔
    (∃ nnn, ins = .setIndex nnn) ∨ (∃ x, ins = .addIndex x) ∨ ∃ x, ins = .pointGlyph x := by
  cases ins <;> simp [points]

end Instruction

namespace Machine

/-- Wherever the second state differs from the first one, the instruction has a destination there. -/
structure Destinations (ins : Instruction) (m m' : Machine) : Prop where
  /-- Memory changes where digits or registers are stored at the index register. -/
  memory : ∀ i (_ : i < 4096), m'.memory.bytes[i] ≠ m.memory.bytes[i] →
    m.registers.index.toNat ≤ i ∧
      ((∃ x, ins = .storeDecimal x ∧ i ≤ m.registers.index.toNat + 2) ∨
        ∃ x, ins = .save x ∧ i ≤ m.registers.index.toNat + x.toNat)
  /-- The picture changes when it is blanked or drawn on. -/
  frame : m'.frame ≠ m.frame → ins = .clear ∨ ∃ x y n, ins = .draw x y n
  /-- The return stack changes by calls and returns. -/
  stack : m'.stack ≠ m.stack → ins = .ret ∨ ∃ nnn, ins = .call nnn
  /-- Each timer is set by an instruction of its own. -/
  delay : m'.timers.delay ≠ m.timers.delay → ∃ x, ins = .setDelay x
  sound : m'.timers.sound ≠ m.timers.sound → ∃ x, ins = .setSound x
  /-- The index register is set, added to, or pointed at a glyph. -/
  index : m'.registers.index ≠ m.registers.index →
    (∃ nnn, ins = .setIndex nnn) ∨ (∃ x, ins = .addIndex x) ∨ ∃ x, ins = .pointGlyph x
  /-- A random byte is drawn. -/
  random : m'.random ≠ m.random → ∃ x kk, ins = .random x kk
  /-- A wait for a key begins, goes on or ends. -/
  keyWait : m'.keyWait ≠ m.keyWait → ∃ x, ins = .awaitKey x
  /-- One of the registers V0 to VF is set. -/
  v : ∀ r, m'.v r ≠ m.v r → ins.sets r = true

variable {keys : KeySet} {m : Machine} {ins : Instruction} {e : Effect}

namespace Completes

/-- A byte that differs lies in the stretch that is stored. -/
theorem stores_of_ne (h : Completes keys m ins e) {i : Nat} (hi : i < 4096)
    (hne : e.machine.memory.bytes[i] ≠ m.memory.bytes[i]) :
    m.registers.index.toNat ≤ i ∧ i < m.registers.index.toNat + ins.stores := by
  cases h with
  | @store _ data hlen _ memory hw =>
    obtain ⟨-, rfl⟩ := Memory.write_eq_ok_iff.1 hw
    rw [hlen]
    refine Decidable.of_not_not fun hout => hne ?_
    exact (getElem_overwrite _ _ data i hi).trans (dif_neg hout)
  | _ => exact absurd rfl hne

/-- The picture changes by clearing and by drawing. -/
theorem frame_of_ne (h : Completes keys m ins e) (hne : e.machine.frame ≠ m.frame) :
    ins = .clear ∨ ∃ x y n, ins = .draw x y n := by
  cases h with
  | clear => exact .inl rfl
  | draw x y n => exact .inr ⟨x, y, n, rfl⟩
  | _ => exact absurd rfl hne

/-- The return stack changes by calls and returns. -/
theorem stack_of_ne (h : Completes keys m ins e) (hne : e.machine.stack ≠ m.stack) :
    ins = .ret ∨ ∃ nnn, ins = .call nnn := by
  rcases h.stack with hsame | ⟨nnn, hcall, -⟩ | ⟨_, hret, -⟩
  · exact absurd hsame hne
  · exact .inr ⟨nnn, hcall⟩
  · exact .inl hret

/-- The delay timer changes by being set. -/
theorem delay_of_ne (h : Completes keys m ins e)
    (hne : e.machine.timers.delay ≠ m.timers.delay) : ∃ x, ins = .setDelay x := by
  cases h with
  | @setDelay x => exact ⟨x, rfl⟩
  | _ => exact absurd rfl hne

/-- So does the sound timer. -/
theorem sound_of_ne (h : Completes keys m ins e)
    (hne : e.machine.timers.sound ≠ m.timers.sound) : ∃ x, ins = .setSound x := by
  cases h with
  | @setSound x => exact ⟨x, rfl⟩
  | _ => exact absurd rfl hne

/-- The index register changes by instructions that point. -/
theorem points_of_ne (h : Completes keys m ins e)
    (hne : e.machine.registers.index ≠ m.registers.index) : ins.points = true := by
  cases h with
  | point hpoints => exact hpoints
  | _ => exact absurd rfl hne

/-- The random source moves on where a byte is drawn. -/
theorem random_of_ne (h : Completes keys m ins e) (hne : e.machine.random ≠ m.random) :
    ∃ x kk, ins = .random x kk := by
  cases h with
  | @random x kk => exact ⟨x, kk, rfl⟩
  | _ => exact absurd rfl hne

/-- The wait for a key changes where a key is waited for. -/
theorem keyWait_of_ne (h : Completes keys m ins e) (hne : e.machine.keyWait ≠ m.keyWait) :
    ∃ x, ins = .awaitKey x := by
  cases h with
  | waitBegins x | waitGoesOn x => exact ⟨x, rfl⟩
  | @waitEnds x => exact ⟨x, rfl⟩
  | _ => exact absurd rfl hne

/-- A register that differs after another one has been set is that one. -/
theorem eq_of_v_setV_ne {r q : Register} {b : UInt8} (hne : (m.setV r b).v q ≠ m.v q) : r = q := by
  refine Decidable.of_not_not fun hrq => hne ?_
  rw [v_setV, if_neg hrq]

/-- A register that differs is one of those that the instruction may set. -/
theorem sets_of_ne (h : Completes keys m ins e) {q : Register} (hne : e.machine.v q ≠ m.v q) :
    ins.sets q = true := by
  cases h with
  | assign hassigns b =>
    obtain rfl := eq_of_v_setV_ne hne
    exact Instruction.sets_of_assigns hassigns
  | assignFlagged hassigns b on =>
    obtain ⟨hset, hflag⟩ := Instruction.sets_of_assignsFlagged hassigns
    rw [v_setFlag] at hne
    by_cases hq : q = .flag
    · rwa [hq]
    · rw [if_neg hq] at hne
      obtain rfl := eq_of_v_setV_ne hne
      exact hset
  | random kk hx =>
    obtain rfl := eq_of_v_setV_ne (m := { m with random := m.random.next.2 }) hne
    exact beq_iff_eq.2 hx
  | draw x y n frame erased =>
    rw [v_setFlag] at hne
    have hq : q = .flag := Decidable.of_not_not fun hq => hne (if_neg hq)
    exact beq_iff_eq.2 hq
  | waitEnds hx =>
    obtain rfl := eq_of_v_setV_ne (m := { m with keyWait := none }) hne
    exact beq_iff_eq.2 hx
  | @restore x data hread =>
    have hlen : data.length = x.toNat + 1 := Memory.length_of_read hread
    refine decide_eq_true (Decidable.of_not_not fun hq => hne ?_)
    exact getElem_overwrite_of_ge m.registers.v data q.isLt (by omega)
  | _ => exact absurd rfl hne

/-- **An instruction that completes changes its destinations only.** -/
theorem destinations (h : Completes keys m ins e) : Destinations ins m e.machine where
  memory := by
    intro i hi hne
    obtain ⟨hlow, hhigh⟩ := h.stores_of_ne hi hne
    refine ⟨hlow, ?_⟩
    have hpos : 0 < ins.stores := by omega
    rcases Instruction.stores_pos hpos with ⟨x, hins, hlen⟩ | ⟨x, hins, hlen⟩
    · exact .inl ⟨x, hins, by omega⟩
    · exact .inr ⟨x, hins, by omega⟩
  frame := h.frame_of_ne
  stack := h.stack_of_ne
  delay := h.delay_of_ne
  sound := h.sound_of_ne
  index := fun hne => Instruction.points_iff.1 (h.points_of_ne hne)
  random := h.random_of_ne
  keyWait := h.keyWait_of_ne
  v := fun _ hne => h.sets_of_ne hne

end Completes

/-- The flag stays as it is unless it is among the registers that are set. -/
theorem Destinations.flag_eq {m' : Machine} (h : Destinations ins m m')
    (hflag : ins.sets .flag = false) : m'.v .flag = m.v .flag := by
  refine Decidable.of_not_not fun hne => ?_
  rw [h.v .flag hne] at hflag
  cases hflag

end Machine

namespace Vm

open Machine

variable {δ : Type} {vm : Vm δ} {display : Display δ} {keys : KeySet}

/-- **A cycle changes the destinations of its instruction only.** Unless it faults, a cycle executes
the instruction at the program counter, and whatever is different afterwards, program counter and
redraw flag apart, is a destination of that instruction. In particular a sum with a constant, a copy
and the bitwise operations leave VF alone, unless it is their result's register, and so does adding to
the index register, which has no carry. -/
theorem cycle_changes_destinations
    (h : ∀ pc fault, (vm.cycle display keys).1.outcome ≠ .failed (.fatal pc fault)) :
    ∃ ins, vm.machine.fetch = .ok ins ∧
      Destinations ins vm.machine (vm.cycle display keys).2.machine ∧
      (∀ x, (∃ kk, ins = .addByte x kk) ∨
          (∃ y, ins = .copy x y ∨ ins = .or x y ∨ ins = .and x y ∨ ins = .xor x y) → x ≠ 15 →
        (vm.cycle display keys).2.machine.v .flag = vm.machine.v .flag) ∧
      ∀ x, ins = .addIndex x →
        (vm.cycle display keys).2.machine.v .flag = vm.machine.v .flag := by
  rcases (turn_cycle display keys vm).fatal_or_executes with
    ⟨⟨fault, hfatal⟩, -⟩ | ⟨-, ins, e, redraw, hexec, hafter⟩
  · exact absurd hfatal (h _ fault)
  · have hdest : Destinations ins vm.machine (vm.cycle display keys).2.machine := by
      have hcompleted := hexec.completes.destinations
      rw [hafter]
      exact ⟨hcompleted.memory, hcompleted.frame, hcompleted.stack, hcompleted.delay,
        hcompleted.sound, hcompleted.index, hcompleted.random, hcompleted.keyWait, hcompleted.v⟩
    refine ⟨ins, hexec.fetched, hdest, ?_, ?_⟩
    · intro x hins hx
      apply hdest.flag_eq
      have hx' : ¬ x.toNat = 15 := fun he => hx (UInt8.toNat_inj.1 he)
      rcases hins with ⟨kk, rfl⟩ | ⟨y, rfl | rfl | rfl | rfl⟩ <;> exact beq_eq_false_iff_ne.2 hx'
    · rintro x rfl
      exact hdest.flag_eq rfl

/-- A machine that stores V0 and V1 at `0x300`. -/
def storing (memory : Memory) : Vm Recorder :=
  ⟨{ Machine.boot memory 0 with registers := { index := 0x300 } }, {}⟩

/-- Storing two registers changes no byte but those at `0x300` and `0x301`. -/
theorem cycle_changes_destinations_save :
    ∃ memory, Memory.ofProgram ⟨[[0xF1, 0x55]], none⟩ = .ok (2, memory) ∧
      (∀ pc fault, ((storing memory).cycle (Recorder.display []) .empty).1.outcome ≠
        .failed (.fatal pc fault)) ∧
      ∀ i (_ : i < 4096),
        ((storing memory).cycle (Recorder.display []) .empty).2.machine.memory.bytes[i] ≠
          memory.bytes[i] → 0x300 ≤ i ∧ i ≤ 0x301 := by
  obtain ⟨memory, hload, hword⟩ := Memory.exists_ofProgram_word 0xF1 0x55
  have hfetch : (storing memory).machine.fetch = .ok (.save 1) := by
    have hpc : (storing memory).machine.registers.pc.toNat = 0x200 := rfl
    rw [fetch_eq_bind _ (by omega) (by omega) (by omega), hpc]
    show memory.word 0x200 >>= _ = _
    rw [hword]
    rfl
  have hgoes : ∀ pc fault, ((storing memory).cycle (Recorder.display []) .empty).1.outcome ≠
      .failed (.fatal pc fault) := by
    intro pc fault hfatal
    have hfault := (fatal_iff.1 hfatal).2
    rw [fault?_of_fetch hfetch] at hfault
    cases hfault
  refine ⟨memory, hload, hgoes, ?_⟩
  intro i hi hne
  obtain ⟨ins, hins, hdest, -⟩ := cycle_changes_destinations hgoes
  obtain rfl : .save 1 = ins := Except.ok.inj (hfetch.symm.trans hins)
  obtain ⟨hlow, ⟨x, hx, -⟩ | ⟨x, hx, hhigh⟩⟩ := hdest.memory i hi hne
  · cases hx
  · cases hx
    exact ⟨hlow, hhigh⟩

end Vm

end Chip8
