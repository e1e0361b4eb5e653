import Chip8.Proofs.Cycle
import Chip8.Proofs.Instruction.Words

/-!
# The faults of a state

`Machine.Raises m fault` lists the states that raise a fault, one constructor for each condition, and
says nothing of fetching, decoding or executing: a program counter out of place, a word that is no
instruction's, a return or a call with the stack empty or full, a key test on a value that names no
key, and an access at the index register that runs past the end of memory or writes below the program
area. An address and a length are added as natural numbers.

* `Finds m word` and `StandsAt m ins` say which word and which instruction are at the program counter.
* `fetch_eq_ok_iff` and `fetch_eq_error_iff` tell fetching by them.
* `fault?_eq_some_iff`: the fault that a state tells is the one that it raises.
* `fatal_iff_raises`: and that is the fault of a cycle. Other states complete their cycle, or the
  display refuses; and nothing has a say in it but memory, registers and the depth of the stack.
-/

namespace Chip8

namespace Machine

/-! ## What is at the program counter -/

/-- The program counter is even and inside the program area, and the two bytes there make a word,
the high one first. -/
structure Finds (m : Machine) (word : UInt16) : Prop where
  low : 0x200 ≤ m.registers.pc.toNat
  even : m.registers.pc.toNat % 2 = 0
  high : m.registers.pc.toNat + 1 < 4096
  bytes : word.toNat = 256 * m.memory.bytes[m.registers.pc.toNat].toNat +
    m.memory.bytes[m.registers.pc.toNat + 1].toNat

instance (m : Machine) (word : UInt16) : Decidable (m.Finds word) :=
  decidable_of_iff
    (0x200 ≤ m.registers.pc.toNat ∧ m.registers.pc.toNat % 2 = 0 ∧
      ∃ _ : m.registers.pc.toNat + 1 < 4096,
        word.toNat = 256 * m.memory.bytes[m.registers.pc.toNat].toNat +
          m.memory.bytes[m.registers.pc.toNat + 1].toNat)
    ⟨fun ⟨low, even, high, bytes⟩ => ⟨low, even, high, bytes⟩,
      fun h => ⟨h.low, h.even, h.high, h.bytes⟩⟩

/-- The word at the program counter encodes an instruction. -/
def StandsAt (m : Machine) (ins : Instruction) : Prop :=
  ∃ word, m.Finds word ∧ Instruction.Encodes word ins

/-- The conditions under which a state raises a fault. -/
inductive Raises (m : Machine) : Fault → Prop where
  /-- The program counter is below the program area, odd, or at the last byte of memory or past it. -/
  | badProgramCounter (h : m.registers.pc.toNat < 0x200 ∨ m.registers.pc.toNat % 2 = 1 ∨
      0xfff ≤ m.registers.pc.toNat) : Raises m .badProgramCounter
  /-- The word there is no instruction's. -/
  | unknownInstruction {word : UInt16} (h : m.Finds word)
      (hnone : ∀ ins, ¬ Instruction.Encodes word ins) : Raises m (.unknownInstruction word)
  /-- A return, and no call is open. -/
  | stackUnderflow (h : m.StandsAt .ret) (hdepth : m.stack.depth = 0) : Raises m .stackUnderflow
  /-- A call, and sixteen calls are open. -/
  | stackOverflow {nnn : UInt16} (h : m.StandsAt (.call nnn)) (hdepth : m.stack.depth = 16) :
      Raises m .stackOverflow
  /-- A key test, and the register's value is sixteen or more. -/
  | invalidKey {x : UInt8} {r : Register} (h : m.StandsAt (.skipIfKey x) ∨ m.StandsAt (.skipUnlessKey x))
      (hx : x.toNat = r.val) (hvalue : 16 ≤ (m.v r).toNat) : Raises m (.invalidKey (m.v r))
  /-- A sprite whose bytes run past the end of memory, or that is empty and starts past it. -/
  | drawPastEnd {x y n : UInt8} (h : m.StandsAt (.draw x y n))
      (hlong : 4096 < m.registers.index.toNat + n.toNat) :
      Raises m (.addressOutOfRange (max m.registers.index.toNat 4096))
  /-- Registers are loaded from, or stored at, bytes past the end of memory. -/
  | registersPastEnd {x : UInt8} (h : m.StandsAt (.restore x) ∨ m.StandsAt (.save x))
      (hlong : 4096 < m.registers.index.toNat + x.toNat + 1) :
      Raises m (.addressOutOfRange (max m.registers.index.toNat 4096))
  /-- Digits are stored past the end of memory. -/
  | digitsPastEnd {x : UInt8} (h : m.StandsAt (.storeDecimal x))
      (hlong : 4096 < m.registers.index.toNat + 3) :
      Raises m (.addressOutOfRange (max m.registers.index.toNat 4096))
  /-- Registers or digits are stored below the program area. -/
  | reservedWrite {x : UInt8} (h : m.StandsAt (.save x) ∨ m.StandsAt (.storeDecimal x))
      (hreserved : m.registers.index.toNat < 0x200) :
      Raises m (.reservedWrite m.registers.index.toNat)

variable {m m' : Machine} {word : UInt16} {ins : Instruction} {fault : Fault}

/-- A state whose program counter is in its place finds a word there. -/
theorem exists_finds (h : ¬ (m.registers.pc.toNat < 0x200 ∨ m.registers.pc.toNat % 2 = 1 ∨
    0xfff ≤ m.registers.pc.toNat)) : ∃ word, m.Finds word := by
  have hhigh : m.registers.pc.toNat + 1 < 4096 := by omega
  exact ⟨_, by omega, by omega, hhigh, toNat_wordOfBytes _ _⟩

/-- A word that is read there is found. -/
theorem finds_of_word (low : 0x200 ≤ m.registers.pc.toNat) (even : m.registers.pc.toNat % 2 = 0)
    (high : m.registers.pc.toNat + 1 < 4096)
    (h : m.memory.word m.registers.pc.toNat = .ok word) : m.Finds word := by
  rw [Memory.word_eq_ok m.memory high] at h
  cases h
  exact ⟨low, even, high, toNat_wordOfBytes _ _⟩

/-- The word that is found is the one that is decoded. -/
theorem Finds.fetch (h : m.Finds word) : m.fetch = Instruction.decode word := by
  have hhigh := h.high
  rw [fetch_eq_decode m h.high h.low h.even]
  congr 1
  apply UInt16.toNat_inj.1
  rw [toNat_wordOfBytes, h.bytes]

/-- An instruction is fetched exactly if its word is at the program counter. -/
theorem fetch_eq_ok_iff : m.fetch = .ok ins ↔ m.StandsAt ins := by
  constructor
  · intro h
    obtain ⟨hlow, heven, hhigh⟩ := pc_of_fetch h
    obtain ⟨word, hword⟩ : ∃ word, m.Finds word := exists_finds (by omega)
    rw [hword.fetch] at h
    exact ⟨word, hword, Instruction.decode_eq_ok_iff.1 h⟩
  · rintro ⟨word, hword, hins⟩
    rw [hword.fetch]
    exact Instruction.decode_eq_ok_iff.2 hins

/-- None is fetched exactly if the program counter is out of place or the word there is no
instruction's. -/
theorem fetch_eq_error_iff :
    m.fetch = .error fault ↔
      (fault = .badProgramCounter ∧ (m.registers.pc.toNat < 0x200 ∨ m.registers.pc.toNat % 2 = 1 ∨
        0xfff ≤ m.registers.pc.toNat)) ∨
      ∃ word, fault = .unknownInstruction word ∧ m.Finds word ∧
        ∀ ins, ¬ Instruction.Encodes word ins := by
  constructor
  · intro h
    by_cases hplace : m.registers.pc.toNat < 0x200 ∨ m.registers.pc.toNat % 2 = 1 ∨
        0xfff ≤ m.registers.pc.toNat
    · rw [fetch_eq_error m (by omega)] at h
      cases h
      exact .inl ⟨rfl, hplace⟩
    · obtain ⟨word, hword⟩ := exists_finds hplace
      rw [hword.fetch] at h
      obtain ⟨hfault, hnone⟩ := Instruction.decode_eq_error_iff.1 h
      exact .inr ⟨word, hfault, hword, hnone⟩
  · rintro (⟨rfl, hplace⟩ | ⟨word, rfl, hword, hnone⟩)
    · exact fetch_eq_error m (by omega)
    · rw [hword.fetch]
      exact Instruction.decode_eq_error_iff.2 ⟨rfl, hnone⟩

/-! ## The faults of an instruction -/

/-- A read faults where it runs past the end of memory, by its first missing byte. -/
theorem readFault?_eq_some_iff {len : Nat} :
    m.readFault? len = some fault ↔ 4096 < m.registers.index.toNat + len ∧
      fault = .addressOutOfRange (max m.registers.index.toNat 4096) := by
  unfold readFault? Memory.outOfRange
  split
  · rename_i h
    simp [h, eq_comm]
  · rename_i h
    simp [h]

/-- A stretch of at most sixteen bytes that starts in the reserved area ends in memory. -/
theorem storeFault?_eq_some_iff {len : Nat} (hpos : 0 < len) (hlen : len ≤ 16) :
    m.storeFault? len = some fault ↔
      (4096 < m.registers.index.toNat + len ∧
        fault = .addressOutOfRange (max m.registers.index.toNat 4096)) ∨
      (m.registers.index.toNat < 0x200 ∧ fault = .reservedWrite m.registers.index.toNat) := by
  rw [storeFault?, Memory.writeFault?_eq]
  unfold Memory.outOfRange
  split
  · rename_i h
    have hfar : ¬ m.registers.index.toNat < 0x200 := by omega
    simp [h, hfar, eq_comm]
  · rename_i h
    split
    · rename_i hreserved
      simp [h, hreserved.1, eq_comm]
    · rename_i hfree
      have hfar : ¬ m.registers.index.toNat < 0x200 := fun hlow => hfree ⟨hlow, hpos⟩
      simp [h, hfar]

/-- A key test faults on sixteen and more. -/
theorem keyFault?_eq_some_iff {value : UInt8} :
    keyFault? value = some fault ↔ 16 ≤ value.toNat ∧ fault = .invalidKey value := by
  unfold keyFault?
  split
  · rename_i h
    simp [h, eq_comm]
  · rename_i h
    simp [h]

/-- The register number of an instruction that stands in memory. -/
theorem StandsAt.exists_register (h : m.StandsAt ins) {x : UInt8} (hx : x ∈ ins.nibbles) :
    ∃ r : Register, x.toNat = r.val ∧ m.operand x = m.v r := by
  obtain ⟨r, -, hr, hv⟩ := (inBounds_of_fetch (fetch_eq_ok_iff.2 h)).exists_register hx
  exact ⟨r, hr, hv⟩

/-- An instruction that stands in memory raises the fault that it foretells. -/
theorem StandsAt.raises (h : m.StandsAt ins) (hf : m.faultOf ins = some fault) :
    m.Raises fault := by
  cases ins with
  | ret =>
    simp only [faultOf, Option.ite_none_right_eq_some, Option.some.injEq] at hf
    obtain ⟨hdepth, rfl⟩ := hf
    exact .stackUnderflow h hdepth
  | call nnn =>
    simp only [faultOf, Option.ite_none_right_eq_some, Option.some.injEq] at hf
    obtain ⟨hdepth, rfl⟩ := hf
    exact .stackOverflow h hdepth
  | skipIfKey x =>
    obtain ⟨r, hr, hv⟩ := h.exists_register List.mem_cons_self
    obtain ⟨hvalue, rfl⟩ := keyFault?_eq_some_iff.1 hf
    rw [hv] at hvalue ⊢
    exact .invalidKey (.inl h) hr hvalue
  | skipUnlessKey x =>
    obtain ⟨r, hr, hv⟩ := h.exists_register List.mem_cons_self
    obtain ⟨hvalue, rfl⟩ := keyFault?_eq_some_iff.1 hf
    rw [hv] at hvalue ⊢
    exact .invalidKey (.inr h) hr hvalue
  | draw x y n =>
    obtain ⟨hlong, rfl⟩ := readFault?_eq_some_iff.1 hf
    exact .drawPastEnd h hlong
  | restore x =>
    obtain ⟨hlong, rfl⟩ := readFault?_eq_some_iff.1 hf
    exact .registersPastEnd (.inl h) hlong
  | storeDecimal x =>
    rcases (storeFault?_eq_some_iff (by decide) (by decide)).1 hf with ⟨hlong, rfl⟩ | ⟨hlow, rfl⟩
    · exact .digitsPastEnd h hlong
    · exact .reservedWrite (.inr h) hlow
  | save x =>
    obtain ⟨r, hr, -⟩ := h.exists_register (x := x) List.mem_cons_self
    have hlen : x.toNat + 1 ≤ 16 := by omega
    rcases (storeFault?_eq_some_iff (Nat.succ_pos _) hlen).1 hf with ⟨hlong, rfl⟩ | ⟨hlow, rfl⟩
    · exact .registersPastEnd (.inr h) hlong
    · exact .reservedWrite (.inl h) hlow
  | _ => cases hf

/-- Registers are stored in a stretch of at most sixteen bytes. -/
theorem StandsAt.save_le {x : UInt8} (h : m.StandsAt (.save x)) : x.toNat + 1 ≤ 16 := by
  obtain ⟨r, hr, -⟩ := h.exists_register (x := x) List.mem_cons_self
  omega

/-- **The fault that a state tells is the one that it raises.** -/
theorem fault?_eq_some_iff : m.fault? = some fault ↔ m.Raises fault := by
  constructor
  · intro h
    cases hfetch : m.fetch with
    | error other =>
      obtain rfl : other = fault := Option.some.inj ((fault?_of_fetch_error hfetch).symm.trans h)
      rcases fetch_eq_error_iff.1 hfetch with ⟨rfl, hplace⟩ | ⟨word, rfl, hword, hnone⟩
      · exact .badProgramCounter hplace
      · exact .unknownInstruction hword hnone
    | ok ins => exact (fetch_eq_ok_iff.1 hfetch).raises ((fault?_of_fetch hfetch).symm.trans h)
  · have told {ins : Instruction} (h : m.StandsAt ins) (hf : m.faultOf ins = some fault) :
        m.fault? = some fault := (fault?_of_fetch (fetch_eq_ok_iff.2 h)).trans hf
    intro h
    cases h with
    | badProgramCounter hplace =>
      exact fault?_of_fetch_error (fetch_eq_error_iff.2 (.inl ⟨rfl, hplace⟩))
    | unknownInstruction hword hnone =>
      exact fault?_of_fetch_error (fetch_eq_error_iff.2 (.inr ⟨_, rfl, hword, hnone⟩))
    | stackUnderflow h hdepth => exact told h (if_pos hdepth)
    | stackOverflow h hdepth => exact told h (if_pos hdepth)
    | @invalidKey x r h hx hvalue =>
      have hkey : keyFault? (m.operand x) = some (.invalidKey (m.v r)) := by
        rw [operand_eq_v m hx]
        exact keyFault?_eq_some_iff.2 ⟨hvalue, rfl⟩
      rcases h with h | h
      · exact told h hkey
      · exact told h hkey
    | drawPastEnd h hlong => exact told h (readFault?_eq_some_iff.2 ⟨hlong, rfl⟩)
    | registersPastEnd h hlong =>
      rcases h with h | h
      · exact told h (readFault?_eq_some_iff.2 ⟨hlong, rfl⟩)
      · have hlen := h.save_le
        exact told h ((storeFault?_eq_some_iff (Nat.succ_pos _) hlen).2 (.inl ⟨hlong, rfl⟩))
    | digitsPastEnd h hlong =>
      exact told h ((storeFault?_eq_some_iff (by decide) (by decide)).2 (.inl ⟨hlong, rfl⟩))
    | reservedWrite h hlow =>
      rcases h with h | h
      · have hlen := h.save_le
        exact told h ((storeFault?_eq_some_iff (Nat.succ_pos _) hlen).2 (.inr ⟨hlow, rfl⟩))
      · exact told h ((storeFault?_eq_some_iff (by decide) (by decide)).2 (.inr ⟨hlow, rfl⟩))

end Machine

namespace Vm

open Machine

variable {δ : Type}

/-- **When a cycle faults, and how.** A cycle ends with a fault exactly if the state before it raises
that fault, at its own program counter. In any other state it completes, or it ends with the refusal
with which the display answered. So two states with the same memory and registers and as many open
calls fault alike, whatever their timers, random bytes, pictures, waits for a key and displays are,
and whatever keys are down. -/
theorem fatal_iff_raises (vm : Vm δ) (display : Display δ) (keys : KeySet) :
    (∀ pc fault, (vm.cycle display keys).1.outcome = .failed (.fatal pc fault) ↔
      pc = vm.machine.registers.pc ∧ vm.machine.Raises fault) ∧
    ((∀ fault, ¬ vm.machine.Raises fault) →
      (∃ status, (vm.cycle display keys).1.outcome = .completed status) ∨
        ∃ e, (vm.cycle display keys).1.outcome = .failed (.io e) ∧
          (display.present (vm.cycle display keys).2.machine.frame vm.screen).1 = .error e) ∧
    ∀ (ε : Type) (vm' : Vm ε) (display' : Display ε) (keys' : KeySet),
      vm'.machine.memory = vm.machine.memory → vm'.machine.registers = vm.machine.registers →
      vm'.machine.stack.depth = vm.machine.stack.depth →
      ∀ pc fault, (vm'.cycle display' keys').1.outcome = .failed (.fatal pc fault) ↔
        (vm.cycle display keys).1.outcome = .failed (.fatal pc fault) := by
  refine ⟨?_, ?_, ?_⟩
  · intro pc fault
    rw [fatal_iff, fault?_eq_some_iff]
  · intro hnone
    rcases (turn_cycle display keys vm).graceful with hdone | ⟨fault, hfatal⟩ | hrefused
    · exact .inl hdone
    · exact absurd (fault?_eq_some_iff.1 (fatal_iff.1 hfatal).2) (hnone fault)
    · exact .inr hrefused
  · intro ε vm' display' keys' hmemory hregisters hdepth pc fault
    rw [fatal_iff, fatal_iff, fault?_congr hmemory hregisters hdepth, hregisters]

end Vm

end Chip8
