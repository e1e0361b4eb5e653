import Chip8.Display.Recorder
import Chip8.Memory.Program
import Chip8.Proofs.Calls

/-!
# No cycle breaks a bound

The machine looks up registers, bytes, slots and pixels without asking whether they exist, and
adds addresses and coordinates without asking whether the sum fits. Whatever program is loaded
and whatever calls are made of it, also after a failure, nothing of that kind can go wrong.

* `Vm.Safe`: the instruction to be executed keeps every bound of `Machine.InBounds`, and a cycle
  ends with a status, with a fault at its program counter, or with the display's own refusal. So
  it never ends with a `Defect`.
* `safe_of_loaded`: every program that fits is loaded, and every state that it comes to is safe.
-/

namespace Chip8.Vm

variable {δ : Type}

/-- Nothing breaks in the next cycle, whatever keys are down and whatever the display does. -/
structure Safe (vm : Vm δ) : Prop where
  /-- An instruction is looked up inside the program area. -/
  word : ∀ ins, vm.machine.fetch = .ok ins →
    0x200 ≤ vm.machine.registers.pc.toNat ∧ vm.machine.registers.pc.toNat + 1 < 4096
  /-- It keeps every bound on which its execution relies. -/
  inBounds : ∀ ins, vm.machine.fetch = .ok ins → vm.machine.InBounds ins
  /-- The cycle ends with a status, a fault, or the refusal with which the display answered. -/
  ends : ∀ (display : Display δ) (keys : KeySet),
    (∃ status, (vm.cycle display keys).1.outcome = .completed status) ∨
      (∃ fault, (vm.cycle display keys).1.outcome =
        .failed (.fatal vm.machine.registers.pc fault)) ∨
      ∃ e, (vm.cycle display keys).1.outcome = .failed (.io e) ∧
        (display.present (vm.cycle display keys).2.machine.frame vm.screen).1 = .error e

/-- Every state is safe: the room that a word has for operands keeps all bounds. -/
theorem safe (vm : Vm δ) : vm.Safe where
  word := by
    intro ins h
    obtain ⟨hlow, -, hhigh⟩ := Machine.pc_of_fetch h
    exact ⟨hlow, hhigh⟩
  inBounds := fun _ h => Machine.inBounds_of_fetch h
  ends := fun display keys => (turn_cycle display keys vm).graceful

/-- A cycle of a safe state meets no defect. -/
theorem Safe.not_broken {vm : Vm δ} (h : vm.Safe) (display : Display δ) (keys : KeySet)
    (d : Defect) : (vm.cycle display keys).1.outcome ≠ .broken d := by
  intro hd
  rcases h.ends display keys with ⟨_, ho⟩ | ⟨_, ho⟩ | ⟨_, ho, -⟩
  · rw [ho] at hd
    cases hd
  · rw [ho] at hd
    cases hd
  · rw [ho] at hd
    cases hd

/-- No cycle of a sequence of calls is broken off. -/
theorem reports_not_broken (vm : Vm δ) (calls : List (Call δ)) :
    ∀ report ∈ vm.reports calls, ∀ d, report.outcome ≠ .broken d := by
  induction calls generalizing vm with
  | nil =>
    intro report hmem
    cases hmem
  | cons call rest ih =>
    cases call with
    | tick => exact ih vm.tick
    | cycle display keys =>
      intro report hmem d
      rcases List.mem_cons.1 hmem with rfl | hrest
      · exact (safe vm).not_broken display keys d
      · exact ih _ report hrest d

/-- **No call breaks a bound**: a program that is read to its end and fits is loaded, no seed and
no calls ever break off a cycle of it, and every state that they bring it to is safe. -/
theorem safe_of_loaded (reader : Reader) {program : List UInt8}
    (hr : reader.readAll = .ok program) (hlen : program.length ≤ 3584) :
    ∃ memory, Memory.ofProgram reader = .ok (program.length, memory) ∧
      ∀ (δ : Type) (seed : UInt64) (screen : δ) (calls : List (Call δ)),
        ((boot memory seed screen).afterAll calls).Safe ∧
          ∀ report ∈ (boot memory seed screen).reports calls, ∀ d, report.outcome ≠ .broken d := by
  refine ⟨_, Memory.load_eq_ok Memory.fresh hr hlen, ?_⟩
  intro δ seed screen calls
  exact ⟨safe _, reports_not_broken _ calls⟩

/-- A program of one instruction that clears the screen, at displays that record. -/
theorem safe_of_loaded_clear :
    (⟨[[0x00, 0xE0]], none⟩ : Reader).readAll = .ok [0x00, 0xE0] ∧
      [(0x00 : UInt8), 0xE0].length ≤ 3584 ∧
      ∃ memory, Memory.ofProgram ⟨[[0x00, 0xE0]], none⟩ = .ok (2, memory) ∧
        ∀ (seed : UInt64) (calls : List (Call Recorder)),
          ((boot memory seed ({} : Recorder)).afterAll calls).Safe := by
  have hr : (⟨[[0x00, 0xE0]], none⟩ : Reader).readAll = .ok [0x00, 0xE0] := rfl
  have hlen : [(0x00 : UInt8), 0xE0].length ≤ 3584 := by decide
  obtain ⟨memory, hload, hsafe⟩ := safe_of_loaded _ hr hlen
  refine ⟨hr, hlen, memory, hload, ?_⟩
  intro seed calls
  exact (hsafe Recorder seed {} calls).1

end Chip8.Vm
