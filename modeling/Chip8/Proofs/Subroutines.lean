import Chip8.Display.Recorder
import Chip8.Memory.Program
import Chip8.Proofs.ControlFlow

/-!
# A subroutine comes back to its caller

A call puts its return address into the slot above those in use. What the subroutine does after that
is any sequence of calls: it may jump, call other subroutines, fault, wait and return from what it has
called. As long as no return has gone back below, that slot and those beneath it stay as they are, so
the return that does goes on behind the call.

* `KeptIn`: the slots in use in one stack hold the same in another. `Above`: they do, and the next
  slot is in use and holds some address.
* `Above.of_push`, `Above.push` and `Above.pop` say what the two operations do to that.
* `Turn.stack` is the step for cycles and `above_after` the one for calls of all kinds;
  `above_afterAll` is the run.
* `call_and_return_bracket` puts them together.
-/

namespace Chip8

namespace ReturnStack

/-- The slots in use in the first stack hold the same in the second. -/
def KeptIn (base s : ReturnStack) : Prop :=
  ∀ i (_ : i < 16), i < base.depth → s.slots[i] = base.slots[i]

/-- The second stack is the first one with an address above it, and perhaps more. -/
structure Above (base : ReturnStack) (addr : UInt16) (s : ReturnStack) : Prop where
  /-- More slots are in use. -/
  depth : base.depth < s.depth
  /-- Those in use before are untouched. -/
  kept : base.KeptIn s
  /-- The first of the others holds the address. -/
  top : ∀ h : base.depth < 16, s.slots[base.depth] = addr

variable {base s t : ReturnStack} {addr a : UInt16}

/-- A stack is above the one on which its last address was pushed. -/
theorem Above.of_push (h : base.push addr = .ok s) : Above base addr s where
  depth := by
    rw [depth_of_push h]
    exact Nat.lt_succ_self _
  kept := by
    intro i hi hlt
    rw [getElem_of_push h i hi, if_neg (by omega)]
  top := by
    intro hroom
    rw [getElem_of_push h _ hroom, if_pos rfl]

/-- A push goes into a slot further up. -/
theorem Above.push (h : Above base addr s) (hpush : s.push a = .ok t) : Above base addr t where
  depth := by
    have hdepth := h.depth
    rw [depth_of_push hpush]
    omega
  kept := by
    intro i hi hlt
    have hdepth := h.depth
    rw [getElem_of_push hpush i hi, if_neg (by omega)]
    exact h.kept i hi hlt
  top := by
    intro hroom
    have hdepth := h.depth
    rw [getElem_of_push hpush _ hroom, if_neg (by omega)]
    exact h.top hroom

/-- A pop takes an address from further up, or it takes the one above the first stack. -/
theorem Above.pop (h : Above base addr s) (hpop : s.pop = .ok (a, t)) :
    Above base addr t ∨ (t.depth = base.depth ∧ a = addr ∧ base.KeptIn t) := by
  have hdepth := h.depth
  have hone := depth_of_pop hpop
  have hslots := slots_of_pop hpop
  have hkept : base.KeptIn t := by
    intro i hi hlt
    rw [hslots]
    exact h.kept i hi hlt
  by_cases hlast : t.depth = base.depth
  · have hroom : base.depth < 16 := by
      have hle := s.depth_le
      omega
    refine .inr ⟨hlast, ?_, hkept⟩
    have htop := getElem_of_pop hpop (hlast ▸ hroom)
    simp only [hlast, h.top hroom] at htop
    exact htop.symm
  · refine .inl ⟨by omega, hkept, ?_⟩
    intro hroom
    rw [hslots]
    exact h.top hroom

end ReturnStack

namespace Vm

open Machine ReturnStack

variable {δ : Type} {vm : Vm δ} {display : Display δ} {keys : KeySet} {result : Report × Vm δ}
  {base : ReturnStack} {addr nnn : UInt16}

/-! ## One call of the machine -/

/-- A cycle leaves the return stack as it is, unless it executes a call or a return. -/
theorem Turn.stack (h : Turn display keys vm result) :
    result.2.machine.stack = vm.machine.stack ∨
      (∃ nnn, vm.machine.fetch = .ok (.call nnn) ∧ result.2.machine.registers.pc = nnn ∧
        vm.machine.stack.push (vm.machine.registers.pc + 2) = .ok result.2.machine.stack) ∨
      (vm.machine.fetch = .ok .ret ∧
        vm.machine.stack.pop = .ok (result.2.machine.registers.pc, result.2.machine.stack)) := by
  rcases h.fatal_or_executes with ⟨-, hsame⟩ | ⟨-, ins, e, redraw, hexec, hafter⟩
  · exact .inl (by rw [hsame])
  · rw [hafter]
    rcases hexec.completes.stack with hsame | ⟨nnn, rfl, hflow, hpush⟩ | ⟨addr, rfl, hflow, hpop⟩
    · exact .inl hsame
    · refine .inr (.inl ⟨nnn, hexec.fetched, ?_, hpush⟩)
      show e.flow.target _ = nnn
      rw [hflow]
      rfl
    · refine .inr (.inr ⟨hexec.fetched, ?_⟩)
      show _ = Except.ok (e.flow.target _, e.machine.stack)
      rw [hflow, hpop]
      rfl

/-- A call with a free slot is executed. -/
theorem cycle_call (hcall : vm.machine.fetch = .ok (.call nnn))
    (hroom : vm.machine.stack.depth < 16) (display : Display δ) (keys : KeySet) :
    (vm.cycle display keys).2.machine.registers.pc = nnn ∧
      vm.machine.stack.push (vm.machine.registers.pc + 2) =
        .ok (vm.cycle display keys).2.machine.stack := by
  obtain ⟨stack, hpush⟩ :=
    vm.machine.stack.exists_push (vm.machine.registers.pc + 2) (Nat.ne_of_lt hroom)
  have hexec : vm.machine.execute keys (.call nnn) =
      .ok { machine := { vm.machine with stack }, flow := .jump nnn } := by
    rw [execute, hpush]
    rfl
  obtain ⟨redraw, screen, hafter⟩ :=
    exists_commit display vm { machine := { vm.machine with stack }, flow := .jump nnn }
  rw [cycle_of_effect hcall hexec, hafter]
  exact ⟨rfl, hpush⟩

/-- Whatever is asked of the machine, its stack stays above another one, or a return takes the address
there and goes on at it. -/
theorem above_after (h : Above base addr vm.machine.stack) (call : Call δ) :
    Above base addr (vm.after call).machine.stack ∨
      ((vm.after call).machine.stack.depth = base.depth ∧
        (∃ display keys, call = .cycle display keys) ∧ vm.machine.fetch = .ok .ret ∧
        (vm.after call).machine.registers.pc = addr ∧
        base.KeptIn (vm.after call).machine.stack) := by
  cases call with
  | tick => exact .inl h
  | cycle display keys =>
    show Above base addr (vm.cycle display keys).2.machine.stack ∨ _
    rcases (turn_cycle display keys vm).stack with hsame | ⟨nnn, -, -, hpush⟩ | ⟨hret, hpop⟩
    · rw [hsame]
      exact .inl h
    · exact .inl (h.push hpush)
    · rcases h.pop hpop with habove | ⟨hdepth, hpc, hkept⟩
      · exact .inl habove
      · exact .inr ⟨hdepth, ⟨display, keys, rfl⟩, hret, hpc, hkept⟩

/-! ## A run of the subroutine -/

/-- As long as the depth does not come back to that of the other stack, the machine's stack stays
above it. -/
theorem above_afterAll (h : Above base addr vm.machine.stack) {calls : List (Call δ)}
    (hopen : ∀ more, more <+: calls → (vm.afterAll more).machine.stack.depth ≠ base.depth) :
    Above base addr (vm.afterAll calls).machine.stack := by
  induction calls generalizing vm with
  | nil => exact h
  | cons call rest ih =>
    have hfirst : (vm.after call).machine.stack.depth ≠ base.depth :=
      hopen [call] (List.prefix_append [call] rest)
    rcases above_after h call with habove | ⟨hback, -⟩
    · refine ih habove ?_
      intro more hmore
      exact hopen (call :: more) ((List.prefix_cons_inj call).2 hmore)
    · exact absurd hback hfirst

/-- **Calls and returns bracket.** A call is executed with fewer than sixteen addresses on the stack,
and after it any calls of the machine follow, the `body`, during which there are never as few addresses
on the stack as before. Then those addresses have been in their slots all along. And if one more call
of the machine brings the stack back to its old depth, that is a cycle which executes a return; it goes
on at the instruction behind the call, and the addresses are still there. -/
theorem call_and_return_bracket (hcall : vm.machine.fetch = .ok (.call nnn))
    (hroom : vm.machine.stack.depth < 16) (display : Display δ) (keys : KeySet)
    {body : List (Call δ)}
    (hopen : ∀ more, more <+: body →
      ((vm.cycle display keys).2.afterAll more).machine.stack.depth ≠ vm.machine.stack.depth) :
    let called := (vm.cycle display keys).2
    (∀ more, more <+: body → vm.machine.stack.depth < (called.afterAll more).machine.stack.depth ∧
      vm.machine.stack.KeptIn (called.afterAll more).machine.stack) ∧
    ∀ last, (called.afterAll (body ++ [last])).machine.stack.depth = vm.machine.stack.depth →
      (∃ display' keys', last = .cycle display' keys') ∧
      (called.afterAll body).machine.fetch = .ok .ret ∧
      (called.afterAll (body ++ [last])).machine.registers.pc.toNat =
        vm.machine.registers.pc.toNat + 2 ∧
      vm.machine.stack.KeptIn (called.afterAll (body ++ [last])).machine.stack := by
  intro called
  have hcalled : Above vm.machine.stack (vm.machine.registers.pc + 2) called.machine.stack :=
    .of_push (cycle_call hcall hroom display keys).2
  have habove : ∀ more, more <+: body → Above vm.machine.stack (vm.machine.registers.pc + 2)
      (called.afterAll more).machine.stack := by
    intro more hmore
    exact above_afterAll hcalled fun first hfirst => hopen first (hfirst.trans hmore)
  refine ⟨fun more hmore => ⟨(habove more hmore).depth, (habove more hmore).kept⟩, ?_⟩
  intro last hback
  rw [afterAll_concat] at hback ⊢
  rcases above_after (habove body (List.prefix_refl body)) last with
    hstill | ⟨-, hcycle, hret, hpc, hkept⟩
  · exact absurd hback (Nat.ne_of_gt hstill.depth)
  · refine ⟨hcycle, hret, ?_, hkept⟩
    rw [hpc]
    exact (toNat_next_of_fetch hcall).1

/-- A call of a subroutine at `0x204` that calls another one at `0x208`; both return at once. -/
def nestedCalls : List UInt8 := [0x22, 0x04, 0x00, 0x00, 0x22, 0x08, 0x00, 0xEE, 0x00, 0xEE]

/-- Memory with that program. -/
def nestedMemory : Memory := ⟨overwrite Memory.fresh.bytes Memory.programStart nestedCalls⟩

/-- A cycle at a recorder that never refuses, with no key down. -/
def plainCycle : Call Recorder := .cycle (Recorder.display []) .empty

/-- The machine with that program. -/
def nested : Vm Recorder := boot nestedMemory 0 {}

/-- The return of the inner subroutine leaves the outer one open, the second one comes back. -/
theorem call_and_return_bracket_nested :
    Memory.ofProgram ⟨[nestedCalls], none⟩ = .ok (10, nestedMemory) ∧
      nested.machine.fetch = .ok (.call 0x204) ∧ nested.machine.stack.depth < 16 ∧
      (∀ more, more <+: [plainCycle, plainCycle] →
        ((nested.cycle (Recorder.display []) .empty).2.afterAll more).machine.stack.depth ≠
          nested.machine.stack.depth) ∧
      ((nested.cycle (Recorder.display []) .empty).2.afterAll
        ([plainCycle, plainCycle] ++ [plainCycle])).machine.stack.depth =
          nested.machine.stack.depth ∧
      ((nested.cycle (Recorder.display []) .empty).2.afterAll
        ([plainCycle, plainCycle] ++ [plainCycle])).machine.registers.pc.toNat = 0x202 := by
  have hread : (⟨[nestedCalls], none⟩ : Reader).readAll = .ok nestedCalls := rfl
  have hload : Memory.ofProgram ⟨[nestedCalls], none⟩ = .ok (10, nestedMemory) :=
    Memory.load_eq_ok Memory.fresh hread (by decide)
  have hcall : nested.machine.fetch = .ok (.call 0x204) := by
    refine (fetch_boot nestedMemory 0).trans ?_
    rw [Memory.word_eq_ok _ (by decide), nestedMemory, getElem_overwrite, getElem_overwrite]
    rfl
  have hroom : nested.machine.stack.depth < 16 := Nat.zero_lt_succ 15
  have hinits : ∀ more ∈ [plainCycle, plainCycle].inits,
      ((nested.cycle (Recorder.display []) .empty).2.afterAll more).machine.stack.depth ≠
        nested.machine.stack.depth := by
    decide +kernel
  have hopen : ∀ more, more <+: [plainCycle, plainCycle] →
      ((nested.cycle (Recorder.display []) .empty).2.afterAll more).machine.stack.depth ≠
        nested.machine.stack.depth :=
    fun more hmore => hinits more ((List.mem_inits more _).2 hmore)
  have hback : ((nested.cycle (Recorder.display []) .empty).2.afterAll
      ([plainCycle, plainCycle] ++ [plainCycle])).machine.stack.depth =
        nested.machine.stack.depth := by
    decide +kernel
  obtain ⟨-, hreturn⟩ := call_and_return_bracket hcall hroom (Recorder.display []) .empty hopen
  have hpc := (hreturn plainCycle hback).2.2.1
  have hstart : nested.machine.registers.pc.toNat = 0x200 := rfl
  rw [hstart] at hpc
  exact ⟨hload, hcall, hroom, hopen, hback, hpc⟩

end Vm

end Chip8
