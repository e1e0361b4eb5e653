import Chip8.Display.Recorder
import Chip8.Memory.Program
import Chip8.Proofs.Calls
import Chip8.Proofs.Machine.FaultConditions

/-!
# The reserved area never changes

The first `0x200` bytes of memory hold the glyphs and zeros before a program is loaded, and they
hold them ever after: loading starts above them, a write that starts below is refused, and no
write wraps around. So a program that points the index register at a digit's glyph finds that
glyph there, whatever it has written before.

* `Memory.Pristine` says that the area is as in fresh memory; `Pristine.write` and
  `Pristine.load` preserve it, and every cycle does because it writes at most once.
* `Pristine.read_glyph`: the five bytes at a digit's place are the digit's glyph.
* `reserved_immutable`: so it is in every state that a program comes to.
-/

namespace Chip8

namespace Memory

variable {m m' : Memory} {addr : Nat} {data : List UInt8}

/-- The reserved area is as in fresh memory. -/
def Pristine (m : Memory) : Prop := ∀ i (_ : i < 0x200), m.bytes[i] = fresh.bytes[i]

/-- Fresh memory has the area as it is in fresh memory. -/
theorem pristine_fresh : fresh.Pristine := fun _ _ => rfl

/-- A write that succeeds leaves the bytes below the program area alone. -/
theorem getElem_of_write {i : Nat} (h : m.write addr data = .ok m') (hi : i < 0x200) :
    m'.bytes[i] = m.bytes[i] := by
  obtain ⟨⟨-, hplace⟩, rfl⟩ := write_eq_ok_iff.1 h
  rcases hplace with habove | hnone
  · exact getElem_overwrite_of_lt _ _ _ (by omega)
  · have hnil : data = [] := List.eq_nil_of_length_eq_zero hnone
    rw [hnil]
    rfl

/-- A write that succeeds leaves the reserved area. -/
theorem Pristine.write (hm : m.Pristine) (h : m.write addr data = .ok m') : m'.Pristine := by
  intro i hi
  rw [getElem_of_write h hi]
  exact hm i hi

/-- So does a load. -/
theorem Pristine.load (hm : m.Pristine) {reader : Reader} {n : Nat}
    (h : m.load reader = .ok (n, m')) : m'.Pristine := by
  obtain ⟨program, -, -, -, rfl⟩ := exists_of_load h
  intro i hi
  have hbelow : (overwrite m.bytes programStart program)[i] = m.bytes[i] :=
    getElem_overwrite_of_lt _ _ _ hi
  exact hbelow.trans (hm i hi)

/-- The bytes of the glyph table are in their place. -/
theorem Pristine.getElem_table (hm : m.Pristine) {i : Nat} (hlow : 0x050 ≤ i) (hhigh : i ≤ 0x09F) :
    m.bytes[i] = Glyphs.table.getD (i - 0x050) 0 := by
  rw [hm i (by omega), getElem_fresh, if_pos ⟨hlow, hhigh⟩]

/-- The five bytes at a digit's place are its glyph. -/
theorem Pristine.read_glyph (hm : m.Pristine) {digit : UInt8} (h : digit.toNat < 16) :
    m.read (Glyphs.address digit).toNat 5 = .ok (Glyphs.glyph ⟨digit.toNat, h⟩) := by
  have haddr : (Glyphs.address digit).toNat = 0x050 + 5 * digit.toNat :=
    Glyphs.toNat_address digit
  rw [haddr, read_eq_ok m (by omega)]
  refine congrArg Except.ok (List.ext_getElem ?_ ?_)
  · rw [List.length_ofFn, Glyphs.glyph, List.length_take, List.length_drop, Glyphs.length_table]
    show 5 = min 5 (80 - 5 * digit.toNat)
    omega
  · intro k hk hk'
    rw [List.length_ofFn] at hk
    have hplace : 0x050 + 5 * digit.toNat + k - 0x050 = 5 * digit.toNat + k := by omega
    rw [List.getElem_ofFn]
    show m.bytes[0x050 + 5 * digit.toNat + k] = _
    rw [hm.getElem_table (by omega) (by omega), hplace]
    simp only [Glyphs.glyph, List.getElem_take, List.getElem_drop]
    exact (List.getElem_eq_getD 0).symm

end Memory

namespace Vm

variable {δ : Type} {vm : Vm δ} {display : Display δ} {keys : KeySet}

/-- No cycle changes the reserved area. -/
theorem pristine_cycle (h : vm.machine.memory.Pristine) (display : Display δ) (keys : KeySet) :
    (vm.cycle display keys).2.machine.memory.Pristine := by
  rcases (turn_cycle display keys vm).memory with hsame | ⟨data, hwrite⟩
  · rw [hsame]
    exact h
  · exact h.write hwrite

/-- Nor does any sequence of calls. -/
theorem pristine_afterAll (h : vm.machine.memory.Pristine) (calls : List (Call δ)) :
    (vm.afterAll calls).machine.memory.Pristine := by
  refine afterAll_invariant (fun vm => vm.machine.memory.Pristine) h ?_ ?_ calls
  · intro vm display keys hvm
    exact pristine_cycle hvm display keys
  · intro vm hvm
    exact hvm

variable {x : UInt8} {r : Register}

/-- Pointing at a digit's glyph, by itself. -/
theorem execute_glyph (h : vm.machine.memory.Pristine) (hx : x.toNat = r.val)
    (hv : (vm.machine.v r).toNat < 16) (keys : KeySet) :
    ∃ e, vm.machine.execute keys (.pointGlyph x) = .ok e ∧
      e.machine.memory.read e.machine.registers.index.toNat 5 =
        .ok (Glyphs.glyph ⟨(vm.machine.v r).toNat, hv⟩) := by
  have hreg : Machine.register x = .ok r := by
    have hlt : x < 16 := by
      rw [UInt8.lt_iff_toNat_lt, hx]
      exact r.isLt
    rw [Machine.register_eq_ok hlt]
    exact congrArg Except.ok (Fin.ext hx)
  refine ⟨_, Machine.execute_pointGlyph hreg (Glyphs.start_add_lt _), ?_⟩
  exact h.read_glyph hv

/-- Pointing at a digit's glyph, as a cycle; whether a picture that is due is shown or refused
does not matter. -/
theorem cycle_glyph (h : vm.machine.memory.Pristine) (hx : x.toNat = r.val)
    (hv : (vm.machine.v r).toNat < 16) (hfetch : vm.machine.fetch = .ok (.pointGlyph x))
    (display : Display δ) (keys : KeySet) :
    (vm.cycle display keys).2.machine.memory.read
        (vm.cycle display keys).2.machine.registers.index.toNat 5 =
      .ok (Glyphs.glyph ⟨(vm.machine.v r).toNat, hv⟩) := by
  obtain ⟨e, hexec, hread⟩ := execute_glyph h hx hv keys
  obtain ⟨redraw, screen, hafter⟩ := exists_commit display vm e
  rw [cycle_of_effect hfetch hexec, hafter]
  exact hread

/-- **The reserved area is immutable.** In every state that a loaded program comes to, whatever
the seed, the keys, the displays and the ticks, memory has `4096` bytes, and those below `0x200`
are the ones at the start: the glyphs at `0x050` to `0x09F` and zeros elsewhere. So pointing the
index register at a digit's glyph finds that glyph. -/
theorem reserved_immutable {reader : Reader} {n : Nat} {memory : Memory}
    (hload : Memory.ofProgram reader = .ok (n, memory)) (seed : UInt64) (screen : δ)
    (calls : List (Call δ)) :
    let vm := (boot memory seed screen).afterAll calls
    vm.machine.memory.bytes.toList.length = 4096 ∧
      (∀ i (_ : i < 0x200), vm.machine.memory.bytes[i] = memory.bytes[i]) ∧
      (∀ i (_ : i < 0x200), vm.machine.memory.bytes[i] =
        if 0x050 ≤ i ∧ i ≤ 0x09F then Glyphs.table.getD (i - 0x050) 0 else 0) ∧
      ∀ (x : UInt8) (r : Register), x.toNat = r.val →
        ∀ (hv : (vm.machine.v r).toNat < 16) (keys : KeySet),
          (∃ e, vm.machine.execute keys (.pointGlyph x) = .ok e ∧
            e.machine.memory.read e.machine.registers.index.toNat 5 =
              .ok (Glyphs.glyph ⟨(vm.machine.v r).toNat, hv⟩)) ∧
          (vm.machine.fetch = .ok (.pointGlyph x) → ∀ display : Display δ,
            (vm.cycle display keys).2.machine.memory.read
                (vm.cycle display keys).2.machine.registers.index.toNat 5 =
              .ok (Glyphs.glyph ⟨(vm.machine.v r).toNat, hv⟩)) := by
  intro vm
  have hstart : memory.Pristine := Memory.pristine_fresh.load hload
  have hvm : vm.machine.memory.Pristine := pristine_afterAll hstart calls
  refine ⟨Vector.length_toList, ?_, ?_, ?_⟩
  · intro i hi
    exact (hvm i hi).trans (hstart i hi).symm
  · intro i hi
    rw [hvm i hi, Memory.getElem_fresh]
  · intro x r hx hv keys
    refine ⟨execute_glyph hvm hx hv keys, ?_⟩
    intro hfetch display
    exact cycle_glyph hvm hx hv hfetch display keys

/-- A program that puts seven into V0 and stores V0 and V1 at the very start of the program area, over
its own first instruction. Then it points at the glyph of V0, and tries to store V0 and V1 again, one
byte further down. -/
def straddlingProgram : List UInt8 :=
  [0x60, 0x07, 0xA2, 0x00, 0xF1, 0x55, 0xF0, 0x29, 0xA1, 0xFF, 0xF1, 0x55]

/-- Memory with that program. -/
def straddlingMemory : Memory :=
  ⟨overwrite Memory.fresh.bytes Memory.programStart straddlingProgram⟩

/-- A cycle with no key down, at a display that takes everything. -/
def quietCycle : Call Recorder := .cycle (Recorder.display []) .empty

/-- The calls in which the program stores V0 and V1. -/
def storingCalls : List (Call Recorder) := [quietCycle, quietCycle, .tick, quietCycle]

/-- Those up to the one that is refused, which is called for twice. -/
def straddlingCalls : List (Call Recorder) :=
  storingCalls ++ [quietCycle, quietCycle, .tick, quietCycle, quietCycle]

/-- The machine when the program has stored V0 and V1. -/
def hasStored : Vm Recorder := (boot straddlingMemory 0 {}).afterAll storingCalls

/-- The machine when it has tried to do so again. -/
def hasStraddled : Vm Recorder := (boot straddlingMemory 0 {}).afterAll straddlingCalls

/-- The store changes the byte at `0x200`, the later one is refused, and the glyph of seven is found
after the one and after the other. -/
theorem reserved_immutable_straddled :
    Memory.ofProgram ⟨[straddlingProgram], none⟩ = .ok (12, straddlingMemory) ∧
      hasStored.machine.memory.bytes.get ⟨0x200, by decide⟩ = 7 ∧
      hasStored.machine.fetch = .ok (.pointGlyph 0) ∧
      (∀ (display : Display Recorder) (keys : KeySet),
        let m := (hasStored.cycle display keys).2.machine
        m.memory.read m.registers.index.toNat 5 = .ok [0xF0, 0x10, 0x20, 0x40, 0x40]) ∧
      (hasStraddled.cycle (Recorder.display []) .empty).1.outcome =
        .failed (.fatal 0x20A (.reservedWrite 0x1FF)) ∧
      (∀ i (_ : i < 0x200),
        hasStraddled.machine.memory.bytes[i] = straddlingMemory.bytes[i]) ∧
      ∀ keys : KeySet, ∃ e, hasStraddled.machine.execute keys (.pointGlyph 0) = .ok e ∧
        e.machine.memory.read e.machine.registers.index.toNat 5 =
          .ok [0xF0, 0x10, 0x20, 0x40, 0x40] := by
  have hread : (⟨[straddlingProgram], none⟩ : Reader).readAll = .ok straddlingProgram := rfl
  have hload : Memory.ofProgram ⟨[straddlingProgram], none⟩ = .ok (12, straddlingMemory) :=
    Memory.load_eq_ok Memory.fresh hread (by decide)
  -- one evaluation of the program for everything that is read off its machines
  have hrun : hasStored.machine.Finds 0xF029 ∧
      hasStored.machine.memory.bytes.get ⟨0x200, by decide⟩ = 7 ∧
      hasStored.machine.v .first = 7 ∧ hasStraddled.machine.v .first = 7 ∧
      (hasStraddled.cycle (Recorder.display []) .empty).1.outcome =
        .failed (.fatal 0x20A (.reservedWrite 0x1FF)) := by
    decide +kernel
  obtain ⟨hfinds, hbyte, hstored, hstraddled, hfatal⟩ := hrun
  have hfetch : hasStored.machine.fetch = .ok (.pointGlyph 0) := hfinds.fetch
  obtain ⟨-, -, -, hglyph⟩ := reserved_immutable hload 0 ({} : Recorder) storingCalls
  obtain ⟨-, hsame, -, hglyph'⟩ := reserved_immutable hload 0 ({} : Recorder) straddlingCalls
  rw [← hasStored] at hglyph
  rw [← hasStraddled] at hsame hglyph'
  have hv : (hasStored.machine.v .first).toNat < 16 := by
    rw [hstored]
    decide
  have hv' : (hasStraddled.machine.v .first).toNat < 16 := by
    rw [hstraddled]
    decide
  refine ⟨hload, hbyte, hfetch, ?_, hfatal, hsame, ?_⟩
  · intro display keys
    have hfound := (hglyph 0 .first rfl hv keys).2 hfetch display
    simp only [hstored] at hfound
    exact hfound
  · intro keys
    have hfound := (hglyph' 0 .first rfl hv' keys).1
    simp only [hstraddled] at hfound
    exact hfound

end Vm

end Chip8
