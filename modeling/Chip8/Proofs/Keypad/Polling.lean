import Chip8.Display.Recorder
import Chip8.Memory.Program
import Chip8.Proofs.Keypad.Stutter

/-!
# How a wait for a key ends

A program that has come to a wait for a key looks at the keypad in every cycle. What it sees is a
sequence of key sets, and the wait ends at the first set with a key that was not in the set before:
a key that has gone down since the last look.

The machine remembers the keys that have been down at every look since the wait began. As long as
no key goes down the sets only shrink, so these are the keys of the last look: that is the invariant
of `polled_of_quiet`, and why the two rules agree.

* `Poll`: some ticks, then a cycle at a display with keys down. `Vm.polled polls vm n` is the report
  of look number `n` and the state after it.
* `poll_of_held` and `poll_of_ends`: what one look does, by what it means for the wait.
* `polled_of_quiet` is the induction over the looks before a key goes down, `polled_of_firstPress`
  the look at which one does.
* `wait_ends_at_first_press` puts them together.
-/

namespace Chip8

/-- A look at the keypad: some ticks, then a cycle at a display with keys down. -/
structure Poll (δ : Type) where
  ticks : Nat
  display : Display δ
  keys : KeySet

variable {δ : Type}

/-- Up to look number `n`, no key goes down between a look and the next. -/
def Quiet (polls : Nat → Poll δ) (n : Nat) : Prop := ∀ i < n, (polls (i + 1)).keys ⊆ (polls i).keys

/-- Look number `n + 1` is the first at which a key is down that was not at the look before. -/
structure FirstPress (polls : Nat → Poll δ) (n : Nat) : Prop where
  quiet : Quiet polls n
  pressed : ¬ (polls (n + 1)).keys ⊆ (polls n).keys

/-- If no look is the first at which a key has gone down, none ever goes down. -/
theorem quiet_of_not_firstPress {polls : Nat → Poll δ} (h : ∀ n, ¬ FirstPress polls n) (n : Nat) :
    Quiet polls n := by
  induction n with
  | zero => exact fun i hi => absurd hi (Nat.not_lt_zero i)
  | succ n ih =>
    intro i hi
    rcases Nat.lt_succ_iff_lt_or_eq.1 hi with hlt | rfl
    · exact ih i hlt
    · exact Decidable.of_not_not fun hpressed => h i ⟨ih, hpressed⟩

/-- The word `Fx0A` is a wait for a key. -/
theorem Instruction.decode_awaitKey (x : Register) :
    decode (wordOfByte 0xF x 0x0A) = .ok (.awaitKey (.ofNat x)) := by
  revert x
  decide

namespace Vm

open Machine

variable {vm : Vm δ} {display : Display δ} {keys : KeySet} {r x : Register} {operand : UInt8}

/-- `n` sixtieths of a second pass. -/
def idle (n : Nat) (vm : Vm δ) : Vm δ := { vm with machine := vm.machine.ticks n }

/-- The report of a look and the state after it. -/
def poll (p : Poll δ) (vm : Vm δ) : Report × Vm δ := (vm.idle p.ticks).cycle p.display p.keys

/-- The report of look number `n` and the state after it. -/
def polled (polls : Nat → Poll δ) (vm : Vm δ) : Nat → Report × Vm δ
  | 0 => vm.poll (polls 0)
  | n + 1 => (vm.polled polls n).2.poll (polls (n + 1))

/-- How a wait ends that puts a key into a register. -/
structure WaitEnds (vm : Vm δ) (x : Register) (key : Key) (result : Report × Vm δ) : Prop where
  /-- The cycle completes, or the display refuses a picture that was due. -/
  outcome : result.1.outcome = .completed .ran ∨ result.1.outcome = .completed .presented ∨
    ∃ err, result.1.outcome = .failed (.io err)
  register : result.2.machine.v x = key.toByte
  others : ∀ r, r ≠ x → result.2.machine.v r = vm.machine.v r
  index : result.2.machine.registers.index = vm.machine.registers.index
  pc : result.2.machine.registers.pc.toNat = vm.machine.registers.pc.toNat + 2
  /-- What the wait remembered is forgotten. -/
  forgotten : result.2.machine.keyWait = none
  /-- The next wait, whenever it comes, begins with the keys that are down then. -/
  fresh : ∀ calls : List (Call δ), ¬ LastWaited (result.2.reports calls) →
    ∀ y, (result.2.afterAll calls).machine.fetch = .ok (.awaitKey y) →
      ∀ (display : Display δ) (keys : KeySet),
        ((result.2.afterAll calls).cycle display keys).1.outcome = .completed .waiting ∧
          ((result.2.afterAll calls).cycle display keys).2.machine.keyWait = some keys

/-! ## One look -/

/-- A look that goes on waiting changes what the wait remembers. -/
theorem cycle_of_held (hr : register operand = .ok r)
    (hf : vm.machine.fetch = .ok (.awaitKey operand)) {held : KeySet}
    (hlook : look vm.machine.keyWait keys = .begins held ∨
      look vm.machine.keyWait keys = .goesOn held) (display : Display δ) :
    (vm.cycle display keys).1.outcome = .completed .waiting ∧
      (vm.cycle display keys).2 =
        { vm with machine := { vm.machine with keyWait := some held } } := by
  rw [cycle_of_effect hf (execute_awaitKey hr)]
  rcases hlook with hlook | hlook
  · rw [hlook, commit_of_wait rfl]
    exact ⟨rfl, rfl⟩
  · rw [hlook, commit_of_wait rfl]
    exact ⟨rfl, rfl⟩

/-- Idle time changes the timers alone. -/
theorem machine_idle (n : Nat) :
    (vm.idle n).machine = { vm.machine with timers := vm.machine.timers.ticks n } :=
  vm.machine.ticks_eq n

/-- Time passes the instruction at the program counter by. -/
theorem fetch_idle (n : Nat) : (vm.idle n).machine.fetch = vm.machine.fetch := by
  rw [machine_idle]
  exact fetch_congr rfl rfl

/-- It passes a wait by, too. -/
theorem keyWait_idle (n : Nat) : (vm.idle n).machine.keyWait = vm.machine.keyWait := by
  rw [machine_idle]

/-- A poll that finds no key newly pressed leaves the machine waiting, with the keys that are
held. -/
theorem poll_of_held (hr : register operand = .ok r)
    (hf : vm.machine.fetch = .ok (.awaitKey operand)) {p : Poll δ} {held : KeySet}
    (hlook : look vm.machine.keyWait p.keys = .begins held ∨
      look vm.machine.keyWait p.keys = .goesOn held) :
    (vm.poll p).1.outcome = .completed .waiting ∧ ∃ timers,
      (vm.poll p).2 = { vm with machine := { vm.machine with timers, keyWait := some held } } := by
  rw [← keyWait_idle p.ticks] at hlook
  obtain ⟨hout, hafter⟩ := cycle_of_held hr ((fetch_idle p.ticks).trans hf) hlook p.display
  refine ⟨hout, vm.machine.timers.ticks p.ticks, hafter.trans ?_⟩
  rw [machine_idle]
  rfl

/-- A state without a wait begins the next wait afresh, whatever calls come before it. -/
theorem wait_begins_afresh (hnone : vm.machine.keyWait = none) (calls : List (Call δ))
    (hlast : ¬ LastWaited (vm.reports calls)) {y : UInt8}
    (hf : (vm.afterAll calls).machine.fetch = .ok (.awaitKey y)) (display : Display δ)
    (keys : KeySet) :
    ((vm.afterAll calls).cycle display keys).1.outcome = .completed .waiting ∧
      ((vm.afterAll calls).cycle display keys).2.machine.keyWait = some keys := by
  have hstill : (vm.afterAll calls).machine.keyWait = none :=
    Decidable.of_not_not fun hne => hlast ((keyWait_afterAll hnone calls).1 hne)
  have hlook : look (vm.afterAll calls).machine.keyWait keys = .begins keys := by
    rw [hstill, look_none]
  obtain ⟨r, hr, -, -⟩ := (inBounds_of_fetch hf).exists_register List.mem_cons_self
  obtain ⟨hout, hafter⟩ := cycle_of_held hr hf (.inl hlook) display
  refine ⟨hout, ?_⟩
  rw [hafter]

/-- A look that finds a key ends the wait with it. -/
theorem cycle_of_ends (hr : register operand = .ok r)
    (hf : vm.machine.fetch = .ok (.awaitKey operand)) {key : Key}
    (hlook : look vm.machine.keyWait keys = .ends key) (display : Display δ) :
    vm.WaitEnds r key (vm.cycle display keys) := by
  have hpc : (vm.machine.registers.pc + 2).toNat = vm.machine.registers.pc.toNat + 2 := by
    have hhigh := (pc_of_fetch hf).2.2
    exact Flow.toNat_target_next (by omega)
  rw [cycle_of_effect hf (execute_awaitKey hr), hlook]
  obtain ⟨redraw, screen, hafter⟩ :=
    exists_commit display vm (vm.machine.lookEffect r (.ends key))
  have hforgotten : (vm.commit display (vm.machine.lookEffect r (.ends key))).2.machine.keyWait =
      none := by
    rw [hafter]
    rfl
  refine ⟨?_, ?_, ?_, ?_, ?_, hforgotten, ?_⟩
  · rcases commit_cases display vm (vm.machine.lookEffect r (.ends key)) with ⟨hw, -⟩ | ⟨-, hout⟩
    · cases hw
    · exact hout
  · rw [hafter]
    exact vm.machine.v_setV_self r key.toByte
  · intro q hq
    rw [hafter]
    exact (vm.machine.v_setV r q key.toByte).trans (if_neg hq.symm)
  · rw [hafter]
    rfl
  · rw [hafter]
    exact hpc
  · intro calls hlast y hy
    exact wait_begins_afresh hforgotten calls hlast hy

/-- How a wait ends is told by the registers before it. -/
theorem WaitEnds.of_registers {vm' : Vm δ} {key : Key} {result : Report × Vm δ}
    (h : vm.WaitEnds x key result) (hregs : vm.machine.registers = vm'.machine.registers) :
    vm'.WaitEnds x key result where
  outcome := h.outcome
  register := h.register
  others := fun r hr => (h.others r hr).trans (congrArg (Registers.get · r) hregs)
  index := h.index.trans (congrArg Registers.index hregs)
  pc := h.pc.trans (congrArg (fun rs : Registers => rs.pc.toNat + 2) hregs)
  forgotten := h.forgotten
  fresh := h.fresh

/-- A poll that finds one ends the wait with it. -/
theorem poll_of_ends (hr : register operand = .ok r)
    (hf : vm.machine.fetch = .ok (.awaitKey operand)) {p : Poll δ} {key : Key}
    (hlook : look vm.machine.keyWait p.keys = .ends key) : vm.WaitEnds r key (vm.poll p) := by
  rw [← keyWait_idle p.ticks] at hlook
  have hends := cycle_of_ends hr ((fetch_idle p.ticks).trans hf) hlook p.display
  refine hends.of_registers ?_
  rw [machine_idle]

/-! ## Many looks -/

variable {polls : Nat → Poll δ} {n : Nat}

/-- **As long as no key goes down the wait goes on**, and remembers the keys of the last look. -/
theorem polled_of_quiet (hr : register operand = .ok r)
    (hf : vm.machine.fetch = .ok (.awaitKey operand)) (hnone : vm.machine.keyWait = none)
    (hquiet : Quiet polls n) :
    (vm.polled polls n).1.outcome = .completed .waiting ∧ ∃ timers, (vm.polled polls n).2 =
      { vm with machine := { vm.machine with timers, keyWait := some (polls n).keys } } := by
  induction n with
  | zero =>
    have hlook : look vm.machine.keyWait (polls 0).keys = .begins (polls 0).keys := by
      rw [hnone, look_none]
    exact poll_of_held hr hf (.inl hlook)
  | succ n ih =>
    obtain ⟨-, timers, hbefore⟩ := ih fun i hi => hquiet i (Nat.lt_succ_of_lt hi)
    have hfetch : (vm.polled polls n).2.machine.fetch = .ok (.awaitKey operand) := by
      rw [hbefore]
      exact (fetch_congr rfl rfl).trans hf
    have hlook : look (vm.polled polls n).2.machine.keyWait (polls (n + 1)).keys =
        .goesOn (polls (n + 1)).keys := by
      rw [hbefore]
      exact look_of_subset (hquiet n (Nat.lt_succ_self n))
    obtain ⟨hout, timers', hafter⟩ := poll_of_held hr hfetch (.inr hlook)
    refine ⟨hout, timers', hafter.trans ?_⟩
    rw [hbefore]

/-- **The first key that goes down ends the wait**, the lowest one if there are several. -/
theorem polled_of_firstPress (hr : register operand = .ok r)
    (hf : vm.machine.fetch = .ok (.awaitKey operand)) (hnone : vm.machine.keyWait = none)
    (hfirst : FirstPress polls n) :
    ∃ key : Key, (key ∈ (polls (n + 1)).keys ∧ key ∉ (polls n).keys) ∧
      (∀ j < key, ¬ (j ∈ (polls (n + 1)).keys ∧ j ∉ (polls n).keys)) ∧
      vm.WaitEnds r key (vm.polled polls (n + 1)) := by
  obtain ⟨-, timers, hbefore⟩ := polled_of_quiet hr hf hnone hfirst.quiet
  have hfetch : (vm.polled polls n).2.machine.fetch = .ok (.awaitKey operand) := by
    rw [hbefore]
    exact (fetch_congr rfl rfl).trans hf
  obtain ⟨key, hends⟩ := exists_look_ends hfirst.pressed
  obtain ⟨hnew, hlowest⟩ := look_some_eq_ends_iff.1 hends
  have hlook : look (vm.polled polls n).2.machine.keyWait (polls (n + 1)).keys = .ends key := by
    rw [hbefore]
    exact hends
  refine ⟨key, hnew, hlowest, ?_⟩
  have hresult : (vm.polled polls n).2.WaitEnds r key (vm.polled polls (n + 1)) :=
    poll_of_ends hr hfetch hlook
  refine hresult.of_registers ?_
  rw [hbefore]

/-- **A wait for a key ends at the first key that goes down.** A program without a wait under way
comes to `Fx0A`, and looks at the keypad in each of the following cycles, with any ticks in
between. As long as no key is down that was not down at the look before, each look waits, the first
one in any case, and the program counter stays. The first look at which one is down ends the wait:
the register takes the lowest such key, the program goes on at the following instruction, and the
next wait begins afresh. If there is no such look, every look waits. -/
theorem wait_ends_at_first_press (hnone : vm.machine.keyWait = none)
    (low : 0x200 ≤ vm.machine.registers.pc.toNat) (even : vm.machine.registers.pc.toNat % 2 = 0)
    (high : vm.machine.registers.pc.toNat ≤ 0xffe)
    (hword : vm.machine.memory.word vm.machine.registers.pc.toNat =
      .ok (Instruction.wordOfByte 0xF x 0x0A)) (polls : Nat → Poll δ) :
    (∀ n, Quiet polls n → (vm.polled polls n).1.outcome = .completed .waiting ∧
        ∃ timers, (vm.polled polls n).2 =
          { vm with machine := { vm.machine with timers, keyWait := some (polls n).keys } }) ∧
      (∀ n, FirstPress polls n →
        ∃ key : Key, (key ∈ (polls (n + 1)).keys ∧ key ∉ (polls n).keys) ∧
          (∀ j < key, ¬ (j ∈ (polls (n + 1)).keys ∧ j ∉ (polls n).keys)) ∧
          vm.WaitEnds x key (vm.polled polls (n + 1))) ∧
      ((∀ n, ¬ FirstPress polls n) →
        ∀ n, (vm.polled polls n).1.outcome = .completed .waiting) := by
  have hfetch : vm.machine.fetch = .ok (.awaitKey (.ofNat x)) := by
    rw [fetch_eq_bind _ low even (by omega), hword]
    exact Instruction.decode_awaitKey x
  have hreg : register (.ofNat x) = .ok x := register_ofNat x
  refine ⟨fun n hquiet => polled_of_quiet hreg hfetch hnone hquiet,
    fun n hfirst => polled_of_firstPress hreg hfetch hnone hfirst, ?_⟩
  intro hnever n
  exact (polled_of_quiet hreg hfetch hnone (quiet_of_not_firstPress hnever n)).1

/-- Key 5 is held when a wait begins, comes up, and goes down again together with key 7. -/
def pressedAgain : Nat → Poll Recorder
  | 0 => ⟨0, Recorder.display [], .ofList [5]⟩
  | 1 => ⟨2, Recorder.display [], .empty⟩
  | _ => ⟨1, Recorder.display [], .ofList [5, 7]⟩

/-- The third look of a program of one wait finds key 5. -/
theorem wait_ends_at_first_press_again :
    ∃ memory, Memory.ofProgram ⟨[[0xF0, 0x0A]], none⟩ = .ok (2, memory) ∧
      memory.word 0x200 = .ok (Instruction.wordOfByte 0xF Register.first 0x0A) ∧
      FirstPress pressedAgain 1 ∧
      let vm := boot memory 0 ({} : Recorder)
      (vm.polled pressedAgain 1).1.outcome = .completed .waiting ∧
        vm.WaitEnds .first 5 (vm.polled pressedAgain 2) := by
  obtain ⟨memory, hload, hmemory⟩ := Memory.exists_ofProgram_word 0xF0 0x0A
  have hword : memory.word 0x200 = .ok (Instruction.wordOfByte 0xF Register.first 0x0A) := hmemory
  have hquiet : Quiet pressedAgain 1 := by
    intro i hi
    obtain rfl : i = 0 := Nat.lt_one_iff.1 hi
    decide
  have hfirst : FirstPress pressedAgain 1 := ⟨hquiet, by decide⟩
  refine ⟨memory, hload, hword, hfirst, ?_⟩
  intro vm
  have hnone : vm.machine.keyWait = none := rfl
  have hpc : vm.machine.registers.pc.toNat = 0x200 := rfl
  have hlow : 0x200 ≤ vm.machine.registers.pc.toNat := Nat.le_refl 0x200
  have heven : vm.machine.registers.pc.toNat % 2 = 0 := by rw [hpc]
  have hhigh : vm.machine.registers.pc.toNat ≤ 0xffe := by rw [hpc]; decide
  obtain ⟨hwaits, hends, -⟩ := wait_ends_at_first_press hnone hlow heven hhigh hword pressedAgain
  obtain ⟨key, hnew, hlowest, hwait⟩ := hends 1 hfirst
  have hfive : ∀ key : Key, (key ∈ (pressedAgain 2).keys ∧ key ∉ (pressedAgain 1).keys) →
      (∀ j < key, ¬ (j ∈ (pressedAgain 2).keys ∧ j ∉ (pressedAgain 1).keys)) → key = 5 := by
    decide
  have hkey : key = 5 := hfive key hnew hlowest
  exact ⟨(hwaits 1 hquiet).1, hkey ▸ hwait⟩

end Vm

end Chip8
