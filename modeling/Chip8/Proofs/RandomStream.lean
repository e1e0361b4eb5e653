import Chip8.Proofs.History
import Chip8.Proofs.Keypad.Stutter
import Mathlib.Data.List.Induction

/-!
# Random bytes are drawn in order

A seed selects a stream of words. Each random instruction takes one word, whatever its mask is and
whatever the display does with the picture afterwards; nothing else takes any. So the number of random
instructions executed so far is the place in the stream, and two runs with one seed draw the same bytes
for the same masks, whatever their programs do in between.

* `Draw` is what a random instruction leaves to be seen: its mask, and what its register holds.
  `Vm.draws` lists the draws of a sequence of calls.
* `cycle_random` and `random_of_ne` are the step: a random instruction draws the next byte, and any
  other cycle keeps its place.
* `draws_afterAll` is the run.
* `random_stream_in_order` puts them together.
-/

namespace Chip8

/-- A random byte that has been drawn. -/
structure Draw where
  /-- The constant that the byte was masked by. -/
  mask : UInt8
  /-- What its register held afterwards. -/
  value : UInt8

/-- The draw of an instruction that has been executed, if it is a random one. -/
def Execution.draw? (x : Execution) : Option Draw :=
  match x.ins with
  | .random r kk => some ⟨kk, x.after.operand r⟩
  | _ => none

/-- Other instructions draw no random byte. -/
theorem Execution.draw?_eq_none {x : Execution} (h : ∀ r kk, x.ins ≠ .random r kk) :
    x.draw? = none := by
  unfold draw?
  split
  · rename_i r kk hins
    exact absurd hins (h r kk)
  · rfl

namespace Vm

open Machine

variable {δ : Type} {vm : Vm δ} {display : Display δ} {keys : KeySet}

/-- The draws of a sequence of calls, in order. -/
def draws (vm : Vm δ) (calls : List (Call δ)) : List Draw :=
  (vm.executions calls).filterMap Execution.draw?

/-! ## One cycle -/

/-- A random instruction at the program counter is executed: its register takes the next byte of the
stream, masked, and the place moves on by one. -/
theorem cycle_random {x kk : UInt8} (h : vm.machine.fetch = .ok (.random x kk))
    (display : Display δ) (keys : KeySet) :
    let after := (vm.cycle display keys).2.machine
    vm.execution? display keys = some ⟨vm.machine, .random x kk, after⟩ ∧
      after.operand x =
        RandomSource.byteAt vm.machine.random.key vm.machine.random.drawn &&& kk ∧
      after.random = ⟨vm.machine.random.key, vm.machine.random.drawn + 1⟩ := by
  intro after
  obtain ⟨e, redraw, hexec, hafter, hsome⟩ := executes_of_fetch h rfl display keys
  obtain ⟨r, hx, hm⟩ := hexec.completes.machine_of_random
  refine ⟨hsome, ?_, ?_⟩
  · rw [operand_eq_v _ hx]
    show (vm.cycle display keys).2.machine.v r = _
    rw [hafter]
    show e.machine.v r = _
    rw [hm, v_setV_self]
    rfl
  · show (vm.cycle display keys).2.machine.random = _
    rw [hafter]
    show e.machine.random = _
    rw [hm]
    rfl

/-- Any other cycle keeps its place, and draws nothing. -/
theorem random_of_ne (h : ∀ x kk, vm.machine.fetch ≠ .ok (.random x kk)) (display : Display δ)
    (keys : KeySet) :
    (vm.cycle display keys).2.machine.random = vm.machine.random ∧
      vm.draws [.cycle display keys] = [] := by
  unfold draws
  rw [executions_cycle]
  rcases execution?_cases display keys vm with
    ⟨-, hnone, hsame⟩ | ⟨ins, e, redraw, hexec, hafter, hsome⟩
  · rw [hnone, hsame]
    exact ⟨rfl, rfl⟩
  · have hne : ∀ x kk, ins ≠ .random x kk := by
      rintro x kk rfl
      exact h x kk hexec.fetched
    rw [hsome, hafter]
    exact ⟨hexec.completes.random_eq hne,
      List.filterMap_cons_none (Execution.draw?_eq_none hne)⟩

/-- A random instruction at the program counter makes one draw. -/
theorem draws_random {x kk : UInt8} (h : vm.machine.fetch = .ok (.random x kk))
    (display : Display δ) (keys : KeySet) :
    vm.draws [.cycle display keys] =
      [⟨kk, RandomSource.byteAt vm.machine.random.key vm.machine.random.drawn &&& kk⟩] := by
  obtain ⟨hsome, hvalue, -⟩ := cycle_random h display keys
  unfold draws
  rw [executions_cycle, hsome, ← hvalue]
  rfl

/-! ## A sequence of calls -/

/-- One call more draws last. -/
theorem draws_concat (vm : Vm δ) (past : List (Call δ)) (call : Call δ) :
    vm.draws (past ++ [call]) = vm.draws past ++ (vm.afterAll past).draws [call] := by
  unfold draws
  rw [executions_append, List.filterMap_append]

/-- From the start of a stream, the place in it is the number of draws so far, and each of them has
drawn the byte at its own place. -/
theorem draws_afterAll {key : ChaCha.StreamKey} (hstart : vm.machine.random = ⟨key, 0⟩)
    (calls : List (Call δ)) :
    (vm.afterAll calls).machine.random = ⟨key, (vm.draws calls).length⟩ ∧
      (vm.draws calls).map Draw.value =
        ((vm.draws calls).map Draw.mask).mapIdx fun k kk => RandomSource.byteAt key k &&& kk := by
  induction calls using List.reverseRecOn with
  | nil => exact ⟨hstart, rfl⟩
  | append_singleton past call ih =>
    obtain ⟨hplace, hvalues⟩ := ih
    -- a call that keeps the place and draws nothing
    have stays (hsame : ((vm.afterAll past).after call).machine.random =
          (vm.afterAll past).machine.random)
        (hnone : (vm.afterAll past).draws [call] = []) :
        (vm.afterAll (past ++ [call])).machine.random =
            ⟨key, (vm.draws (past ++ [call])).length⟩ ∧
          (vm.draws (past ++ [call])).map Draw.value =
            ((vm.draws (past ++ [call])).map Draw.mask).mapIdx
              fun k kk => RandomSource.byteAt key k &&& kk := by
      rw [afterAll_concat, draws_concat, hnone, List.append_nil, hsame]
      exact ⟨hplace, hvalues⟩
    cases call with
    | tick => exact stays rfl rfl
    | cycle display keys =>
      by_cases h : ∃ x kk, (vm.afterAll past).machine.fetch = .ok (.random x kk)
      · obtain ⟨x, kk, hfetch⟩ := h
        obtain ⟨-, -, hnext⟩ := cycle_random hfetch display keys
        rw [afterAll_concat, draws_concat, draws_random hfetch, hplace]
        refine ⟨?_, ?_⟩
        · rw [hplace] at hnext
          rw [List.length_append]
          exact hnext
        · rw [List.map_append, List.map_append, hvalues, List.map_singleton, List.map_singleton,
            List.mapIdx_concat, List.length_map]
      · have hne : ∀ x kk, (vm.afterAll past).machine.fetch ≠ .ok (.random x kk) :=
          fun x kk hfetch => h ⟨x, kk, hfetch⟩
        obtain ⟨hsame, hnone⟩ := random_of_ne hne display keys
        exact stays hsame hnone

/-- **Random bytes are drawn in order.** In every state that a program comes to, with so many random
instructions executed, the next one sets its register to the low byte of the seed's word of that
number, masked, and then it counts as executed, whatever its mask is and whatever the display does. No
other cycle takes a word, and in particular none that waits or faults, nor does a tick. So a run with the
same seed that executes random instructions with the same masks draws the same bytes, whatever its
program is and whatever happens in between. -/
theorem random_stream_in_order (memory : Memory) (seed : UInt64) (screen : δ)
    (calls : List (Call δ)) :
    let start := boot memory seed screen
    let vm := start.afterAll calls
    let key := ChaCha.keyOfSeed seed
    let count := (start.draws calls).length
    vm.machine.random = ⟨key, count⟩ ∧
      (∀ x kk, vm.machine.fetch = .ok (.random x kk) → ∀ (display : Display δ) (keys : KeySet),
        let after := (vm.cycle display keys).2.machine
        after.operand x = (ChaCha.word key count).toUInt8 &&& kk ∧
          after.random = ⟨key, count + 1⟩) ∧
      (∀ (display : Display δ) (keys : KeySet),
        (∀ x kk, vm.machine.fetch ≠ .ok (.random x kk)) ∨
          (vm.cycle display keys).1.outcome = .completed .waiting ∨
          (∃ pc fault, (vm.cycle display keys).1.outcome = .failed (.fatal pc fault)) →
        (vm.cycle display keys).2.machine.random = vm.machine.random) ∧
      vm.tick.machine.random = vm.machine.random ∧
      ∀ (ε : Type) (memory' : Memory) (screen' : ε) (calls' : List (Call ε)),
        let start' := boot memory' seed screen'
        (start.draws calls).map Draw.mask = (start'.draws calls').map Draw.mask →
          (start.draws calls).map Draw.value = (start'.draws calls').map Draw.value := by
  intro start vm key count
  have hstart : start.machine.random = ⟨key, 0⟩ := rfl
  obtain ⟨hplace, hvalues⟩ : vm.machine.random = ⟨key, count⟩ ∧ _ := draws_afterAll hstart calls
  refine ⟨hplace, ?_, ?_, rfl, ?_⟩
  · intro x kk hfetch display keys
    obtain ⟨-, hvalue, hnext⟩ := cycle_random hfetch display keys
    rw [hplace] at hvalue hnext
    exact ⟨hvalue, hnext⟩
  · rintro display keys (hne | hwaits | ⟨pc, fault, hfatal⟩)
    · exact (random_of_ne hne display keys).1
    · obtain ⟨held, hafter⟩ := (turn_cycle display keys vm).machine_of_waiting hwaits
      rw [hafter]
    · obtain ⟨-, hsame⟩ := (turn_cycle display keys vm).fatal_of_fault? (fatal_iff.1 hfatal).2
      rw [hsame]
  · intro ε memory' screen' calls' start' hmasks
    have hstart' : start'.machine.random = ⟨key, 0⟩ := rfl
    obtain ⟨-, hvalues'⟩ := draws_afterAll hstart' calls'
    rw [hvalues, hvalues', hmasks]

/-- The first bytes of the stream that the seed zero selects. -/
example : [0, 1, 2, 3].map (RandomSource.byteAt (ChaCha.keyOfSeed 0)) = [0x7F, 0xB2, 0x7B, 0x94] := by
  decide +kernel

end Vm

end Chip8
