import Chip8.Proofs.Calls
import Mathlib.Data.List.Infix
import Mathlib.Data.List.Induction

/-!
# Where the program counter may be

The program counter may leave the program area: a computed jump adds up to 255 to an address of
twelve bits, and an instruction at the last word is followed by none. Nothing is fetched there,
though, so only what is fetched decides how far it can go, and which return addresses there can be.

* `Move` lists what a cycle does to the program counter and the return addresses, and `Turn.move`
  says that there is nothing else.
* `ControlFlow` is the invariant: `Move.controlFlow` is its step, `controlFlow_afterAll` the run.
* `CalledFrom` says that a call put a return address where it is, and that it has been there ever
  since. `exists_calledFrom` finds that call for every return address, looking back from the last
  cycle.
* `control_stays_in_bounds` puts them together.
-/

namespace Chip8

namespace Machine

/-! ## The moves of an instruction -/

/-- What a cycle does to the program counter and the return addresses. -/
inductive Move (m : Machine) : UInt16 → List UInt16 → Prop where
  /-- Nothing: there is no instruction, it faults, or it waits. -/
  | stays : Move m m.registers.pc m.stack.toList
  /-- The program goes on at the following instruction. -/
  | next {ins : Instruction} (h : m.fetch = .ok ins) :
      Move m (m.registers.pc + 2) m.stack.toList
  /-- It goes on after the following instruction. -/
  | skip {ins : Instruction} (h : m.fetch = .ok ins) :
      Move m (m.registers.pc + 4) m.stack.toList
  /-- It goes on at an address of twelve bits, to which a byte may have been added. -/
  | jump {addr : UInt16} (h : addr.toNat ≤ 0x10fe) : Move m addr m.stack.toList
  /-- It goes on at an address of twelve bits, and the following instruction's is remembered. -/
  | call {nnn : UInt16} (h : m.fetch = .ok (.call nnn)) (hlt : nnn < 4096) :
      Move m nnn ((m.registers.pc + 2) :: m.stack.toList)
  /-- It goes on at the address remembered last. -/
  | ret {addr : UInt16} {rest : List UInt16} (h : m.fetch = .ok .ret)
      (hs : m.stack.toList = addr :: rest) : Move m addr rest

variable {m : Machine} {ins : Instruction} {e : Effect} {keys : KeySet} {pc : UInt16}
  {stack : List UInt16}

/-- An address of twelve bits, and a byte added to it, stay below `0x10ff`. -/
theorem toNat_address_add_le {nnn : UInt16} (h : nnn < 4096) (b : UInt8) :
    nnn.toNat + b.toNat ≤ 0x10fe := by
  have hn : nnn.toNat < 4096 := UInt16.lt_iff_toNat_lt.1 h
  have hb := b.toNat_lt
  omega

/-- An address by itself is no further than one with a byte added. -/
theorem toNat_address_le {nnn : UInt16} (h : nnn < 4096) : nnn.toNat ≤ 0x10fe :=
  Nat.le_trans (Nat.le_add_right _ _) (toNat_address_add_le h 0)

/-- An instruction that completes makes one of the moves listed. -/
theorem Executes.move (h : Executes keys m ins e) :
    Move m (e.flow.target m.registers.pc) e.machine.stack.toList := by
  have haddr := (encodable_of_fetch h.fetched).2
  obtain ⟨hf, -, hc⟩ := h
  cases hc with
  | skip _ condition =>
    cases condition with
    | false => exact .next hf
    | true => exact .skip hf
  | jump nnn => exact .jump (toNat_address_le (haddr nnn rfl))
  | @jumpFrom nnn target htarget =>
    have hle : target.toNat ≤ 0x10fe := by
      rw [htarget]
      exact toNat_address_add_le (haddr nnn rfl) _
    exact .jump hle
  | ret hpop => exact .ret hf (ReturnStack.toList_of_pop hpop)
  | call nnn hpush =>
    rw [ReturnStack.toList_of_push hpush]
    exact .call hf (haddr nnn rfl)
  | waitBegins | waitGoesOn => exact .stays
  -- whatever else completes goes on at the following instruction
  | _ => exact .next hf

/-! ## The invariant -/

/-- What holds of the program counter and the return addresses of every program. -/
structure ControlFlow (m : Machine) : Prop where
  /-- No more than sixteen calls are open. -/
  depth : m.stack.depth ≤ 16
  /-- Each goes on at an instruction's place, or just behind the last one. -/
  live : ∀ addr ∈ m.stack.toList,
    addr.toNat % 2 = 0 ∧ 0x202 ≤ addr.toNat ∧ addr.toNat ≤ 0x1000
  /-- A computed jump leads the program counter out of the program area by no more than this. -/
  pc : m.registers.pc.toNat ≤ 0x10fe

/-- So the program counter never wraps: not on the way to the following instruction, which is also
what a call remembers, nor on the way past it. -/
theorem ControlFlow.target (h : m.ControlFlow) :
    (Flow.next.target m.registers.pc).toNat = m.registers.pc.toNat + 2 ∧
      (Flow.skip.target m.registers.pc).toNat = m.registers.pc.toNat + 4 := by
  have hpc := h.pc
  exact ⟨Flow.toNat_target_next (by omega), Flow.toNat_target_skip (by omega)⟩

/-- What is fetched is followed by an address in the program area, or just behind it. -/
theorem toNat_next_of_fetch (h : m.fetch = .ok ins) :
    (m.registers.pc + 2).toNat = m.registers.pc.toNat + 2 ∧
      (m.registers.pc + 4).toNat = m.registers.pc.toNat + 4 := by
  have hhigh := (pc_of_fetch h).2.2
  exact ⟨Flow.toNat_target_next (by omega), Flow.toNat_target_skip (by omega)⟩

/-- **No move breaks the invariant.** -/
theorem Move.controlFlow (h : Move m pc stack) (hm : m.ControlFlow) :
    (∀ addr ∈ stack, addr.toNat % 2 = 0 ∧ 0x202 ≤ addr.toNat ∧ addr.toNat ≤ 0x1000) ∧
      pc.toNat ≤ 0x10fe := by
  cases h with
  | stays => exact ⟨hm.live, hm.pc⟩
  | next hf =>
    have hhigh := (pc_of_fetch hf).2.2
    refine ⟨hm.live, ?_⟩
    rw [(toNat_next_of_fetch hf).1]
    omega
  | skip hf =>
    have hhigh := (pc_of_fetch hf).2.2
    refine ⟨hm.live, ?_⟩
    rw [(toNat_next_of_fetch hf).2]
    omega
  | jump hle => exact ⟨hm.live, hle⟩
  | call hf hlt =>
    obtain ⟨hlow, heven, hhigh⟩ := pc_of_fetch hf
    refine ⟨?_, toNat_address_le hlt⟩
    intro addr hmem
    rcases List.mem_cons.1 hmem with rfl | hmem
    · rw [(toNat_next_of_fetch hf).1]
      omega
    · exact hm.live addr hmem
  | ret hf hs =>
    obtain ⟨-, -, hle⟩ := hm.live pc (hs ▸ List.mem_cons_self)
    refine ⟨?_, by omega⟩
    intro addr hmem
    exact hm.live addr (hs ▸ List.mem_cons_of_mem _ hmem)

/-- A return address came there by a call, or was there before. -/
theorem Move.suffix (h : Move m pc stack) {top : List UInt16} (htop : top <:+ stack) :
    top <:+ m.stack.toList ∨
      ∃ nnn, m.fetch = .ok (.call nnn) ∧ top = (m.registers.pc + 2) :: m.stack.toList ∧
        stack = top := by
  cases h with
  | call hf =>
    rcases List.suffix_cons_iff.1 htop with rfl | hbelow
    · exact .inr ⟨_, hf, rfl, rfl⟩
    · exact .inl hbelow
  | ret hf hs => exact .inl (hs ▸ htop.trans (List.suffix_cons _ _))
  | _ => exact .inl htop

end Machine

namespace Vm

open Machine

variable {δ : Type} {vm : Vm δ} {display : Display δ} {keys : KeySet} {result : Report × Vm δ}

/-! ## One cycle -/

/-- **Every cycle makes one of the moves listed.** -/
theorem Turn.move (h : Turn display keys vm result) :
    Move vm.machine result.2.machine.registers.pc result.2.machine.stack.toList := by
  cases h with
  | lost | faults => exact .stays
  | waits h | runs h | shows h | refused h => exact h.move

/-- A cycle keeps the program counter and the return addresses in bounds. -/
theorem Turn.controlFlow (h : Turn display keys vm result) (hvm : vm.machine.ControlFlow) :
    result.2.machine.ControlFlow := by
  obtain ⟨hlive, hpc⟩ := h.move.controlFlow hvm
  exact ⟨result.2.machine.stack.depth_le, hlive, hpc⟩

/-- Unless a cycle faults for its program counter, there is a word that it decodes. -/
theorem word_of_cycle
    (h : (vm.cycle display keys).1.outcome ≠
      .failed (.fatal vm.machine.registers.pc .badProgramCounter)) :
    (0x200 ≤ vm.machine.registers.pc.toNat ∧ vm.machine.registers.pc.toNat % 2 = 0 ∧
      vm.machine.registers.pc.toNat ≤ 0xffe) ∧
      ∃ word, vm.machine.memory.word vm.machine.registers.pc.toNat = .ok word ∧
        vm.machine.fetch = Instruction.decode word := by
  by_cases hbad : vm.machine.registers.pc.toNat < 0x200 ∨
      vm.machine.registers.pc.toNat % 2 = 1 ∨ 4096 ≤ vm.machine.registers.pc.toNat + 1
  · have hfault := fault?_of_fetch_error (fetch_eq_error _ hbad)
    exact absurd (fatal_iff.2 ⟨rfl, hfault⟩) h
  · have hhigh : vm.machine.registers.pc.toNat + 1 < 4096 := by omega
    have hword := Memory.word_eq_ok vm.machine.memory hhigh
    refine ⟨by omega, _, hword, ?_⟩
    rw [fetch_eq_bind _ (by omega) (by omega) hhigh, hword]
    rfl

/-- A return goes on at the address remembered last, if there is one. -/
theorem Turn.ret (h : Turn display keys vm result) (hf : vm.machine.fetch = .ok .ret) :
    result.2 = vm ∨ vm.machine.stack.toList =
      result.2.machine.registers.pc :: result.2.machine.stack.toList := by
  have returns {ins : Instruction} {e : Effect} (h : Executes keys vm.machine ins e) :
      vm.machine.stack.toList = e.flow.target vm.machine.registers.pc ::
        e.machine.stack.toList := by
    obtain rfl : .ret = ins := Except.ok.inj (hf.symm.trans h.fetched)
    obtain ⟨addr, hflow, hstack⟩ := h.completes.flow_of_ret
    rw [hflow, hstack]
    rfl
  cases h with
  | lost | faults => exact .inl rfl
  | waits h | runs h | shows h | refused h => exact .inr (returns h)

/-! ## A sequence of calls -/

/-- **The invariant holds along every sequence of calls.** -/
theorem controlFlow_afterAll (h : vm.machine.ControlFlow) (calls : List (Call δ)) :
    (vm.afterAll calls).machine.ControlFlow := by
  refine afterAll_invariant (fun vm => vm.machine.ControlFlow) h ?_ ?_ calls
  · intro vm display keys hvm
    exact (turn_cycle display keys vm).controlFlow hvm
  · intro vm hvm
    exact ⟨hvm.depth, hvm.live, hvm.pc⟩

/-- At the start they are. -/
theorem controlFlow_boot (memory : Memory) (seed : UInt64) (screen : δ) :
    (boot memory seed screen).machine.ControlFlow where
  depth := Nat.zero_le 16
  live := fun _ hmem => absurd hmem List.not_mem_nil
  pc := by
    show 0x200 ≤ 0x10fe
    decide

/-- After the calls `before`, a call of a subroutine put a return address on top of the others, and
there it has been all through the calls `later`. -/
structure CalledFrom (start : Vm δ) (before : List (Call δ)) (call : Call δ)
    (later : List (Call δ)) (addr : UInt16) (rest : List UInt16) : Prop where
  /-- The instruction is a call of a subroutine. -/
  fetched : ∃ nnn, (start.afterAll before).machine.fetch = .ok (.call nnn)
  /-- It remembers the address of the instruction that follows it. -/
  pc : addr.toNat = (start.afterAll before).machine.registers.pc.toNat + 2
  found : (start.afterAll before).machine.stack.toList = rest
  pushed : ((start.afterAll before).after call).machine.stack.toList = addr :: rest
  /-- No return has taken the address away since. -/
  kept : ∀ more, more <+: later →
    addr :: rest <:+ (((start.afterAll before).after call).afterAll more).machine.stack.toList

variable {start : Vm δ} {before later : List (Call δ)} {call : Call δ} {addr : UInt16}
  {rest : List UInt16}

/-- It is there after another call, too, unless that takes it away. -/
theorem CalledFrom.concat (h : CalledFrom start before call later addr rest) {next : Call δ}
    (hnext : addr :: rest <:+
      (((start.afterAll before).after call).afterAll (later ++ [next])).machine.stack.toList) :
    CalledFrom start before call (later ++ [next]) addr rest := by
  refine ⟨h.fetched, h.pc, h.found, h.pushed, ?_⟩
  intro more hmore
  rcases List.prefix_concat_iff.1 hmore with rfl | hmore
  · exact hnext
  · exact h.kept more hmore

/-- **Every return address has the call that put it there.** -/
theorem exists_calledFrom (hstart : start.machine.stack.toList = []) (calls : List (Call δ))
    (h : addr :: rest <:+ (start.afterAll calls).machine.stack.toList) :
    ∃ before display keys later, calls = before ++ .cycle display keys :: later ∧
      CalledFrom start before (.cycle display keys) later addr rest := by
  induction calls using List.reverseRecOn with
  | nil =>
    rw [afterAll_nil, hstart] at h
    cases List.suffix_nil.1 h
  | append_singleton past call ih =>
    -- an address that was there before has its call among the earlier ones
    have earlier (hpast : addr :: rest <:+ (start.afterAll past).machine.stack.toList) :
        ∃ before display keys later, past ++ [call] = before ++ .cycle display keys :: later ∧
          CalledFrom start before (.cycle display keys) later addr rest := by
      obtain ⟨before, display, keys, later, rfl, hcalled⟩ := ih hpast
      refine ⟨before, display, keys, later ++ [call], ?_, hcalled.concat ?_⟩
      · rw [List.append_assoc, List.cons_append]
      · rwa [List.append_assoc, List.cons_append, afterAll_append, afterAll_cons] at h
    cases call with
    | tick =>
      rw [afterAll_concat] at h
      exact earlier h
    | cycle display keys =>
      rw [afterAll_concat] at h
      rcases (turn_cycle display keys (start.afterAll past)).move.suffix h with
        hpast | ⟨nnn, hf, htop, hstack⟩
      · exact earlier hpast
      · obtain ⟨rfl, rfl⟩ := List.cons.inj htop
        refine ⟨past, display, keys, [], rfl, ⟨nnn, hf⟩, (toNat_next_of_fetch hf).1, rfl, hstack, ?_⟩
        intro more hmore
        rw [List.prefix_nil.1 hmore]
        exact h

/-- **The program counter and the return addresses keep in bounds.** In every state that a program
comes to, at most sixteen calls are open, every return address is even and lies from `0x202` to
`0x1000`, and the program counter is at most `0x10fe`, so that neither the following instruction's
address, which is also what a call remembers, nor the one after it wraps. A cycle that does not fault
for its program counter takes its word from an even address in the program area. And a return leads
to such a fault only at the address `0x1000`, which a call from the last word has put there. -/
theorem control_stays_in_bounds (memory : Memory) (seed : UInt64) (screen : δ)
    (calls : List (Call δ)) :
    let start := boot memory seed screen
    let vm := start.afterAll calls
    let pc := vm.machine.registers.pc
    vm.machine.ControlFlow ∧
      ((Flow.next.target pc).toNat = pc.toNat + 2 ∧ (Flow.skip.target pc).toNat = pc.toNat + 4) ∧
      ∀ (display : Display δ) (keys : KeySet),
        ((vm.cycle display keys).1.outcome ≠ .failed (.fatal pc .badProgramCounter) →
          (0x200 ≤ pc.toNat ∧ pc.toNat % 2 = 0 ∧ pc.toNat ≤ 0xffe) ∧
            ∃ word, vm.machine.memory.word pc.toNat = .ok word ∧
              vm.machine.fetch = Instruction.decode word) ∧
        (vm.machine.fetch = .ok .ret →
          (vm.cycle display keys).2.machine.fetch = .error .badProgramCounter →
          ∃ rest, vm.machine.stack.toList = 0x1000 :: rest ∧
            ∃ before display' keys' later, calls = before ++ .cycle display' keys' :: later ∧
              (start.afterAll before).machine.registers.pc.toNat = 0xffe ∧
              CalledFrom start before (.cycle display' keys') later 0x1000 rest) := by
  intro start vm pc
  have hflow : vm.machine.ControlFlow :=
    controlFlow_afterAll (controlFlow_boot memory seed screen) calls
  refine ⟨hflow, hflow.target, ?_⟩
  intro display keys
  refine ⟨word_of_cycle, ?_⟩
  intro hret hbad
  have hturn := turn_cycle display keys vm
  rcases hturn.ret hret with hsame | hpop
  · rw [hsame, hret] at hbad
    cases hbad
  · obtain ⟨heven, hlow, hhigh⟩ := hflow.live _ (hpop ▸ List.mem_cons_self)
    have hplace := fetch_eq_badProgramCounter_iff.1 hbad
    have haddr : (vm.cycle display keys).2.machine.registers.pc = 0x1000 := by
      apply UInt16.toNat_inj.1
      show _ = 0x1000
      omega
    rw [haddr] at hpop
    refine ⟨_, hpop, ?_⟩
    have hstart : start.machine.stack.toList = [] := rfl
    have htop : 0x1000 :: (vm.cycle display keys).2.machine.stack.toList <:+
        vm.machine.stack.toList := by
      rw [hpop]
    obtain ⟨before, display', keys', later, hcalls, hcalled⟩ :=
      exists_calledFrom hstart calls htop
    refine ⟨before, display', keys', later, hcalls, ?_, hcalled⟩
    have hpc := hcalled.pc
    have hnat : (0x1000 : UInt16).toNat = 0x1000 := rfl
    omega

end Vm

end Chip8
