import Chip8.Fault
import Chip8.InPlace
import Chip8.Memory.Glyphs

/-!
# RAM

The machine has 4096 bytes of memory. The first `0x200` are reserved: they hold the glyphs of
the digits and zeros, programs may read them but not write them. A program lies from `0x200` on.

* `Memory.read`, `Memory.byte` and `Memory.word` answer with the bytes at an address, or fault
  if a byte asked for does not exist.
* `Memory.write` also faults if it starts in the reserved area; a write of nothing may start
  there, as it changes nothing.
* `Memory.writeM` is the write in place. `run_writeM` says that it comes to what `write` tells, and
  that a refusal finds nothing changed yet.

Addresses have 64 bits. They are kept as natural numbers, and `endOf?` tells where a range has no
end among them, so that no sum wraps around. The `getElem` lemmas tell each byte after each
operation.
-/

namespace Chip8

/-- The contents of RAM. -/
structure Memory where
  bytes : Vector UInt8 4096
  deriving DecidableEq

namespace Memory

/-- Bytes of RAM. -/
abbrev size : Nat := 4096

/-- Where a program lies. -/
abbrev programStart : Nat := 0x200

/-- The longest program that fits. -/
abbrev programLimit : Nat := size - programStart

/-- Memory before any program is loaded: zeros, and the glyphs in their place. -/
def fresh : Memory := ⟨overwrite (.replicate 4096 0) Glyphs.start Glyphs.table⟩

/-- The fault of an access that runs past the end: the first byte that does not exist. -/
def outOfRange (addr : Nat) : Fault := .addressOutOfRange (max addr size)

/-! ## Ranges -/

/-- The end of the `len` bytes from `addr` on, if it is an address of 64 bits. -/
def endOf? (addr len : Nat) : Option Nat :=
  if addr + len < UInt64.size then some (addr + len) else none

/-- Why `len` bytes from `addr` on cannot be accessed, if they cannot: some of them do not exist,
or they have no end. -/
def rangeFault? (addr len : Nat) : Option Fault :=
  match endOf? addr len with
  | some stop => if stop ≤ size then none else some (outOfRange addr)
  | none => some (outOfRange addr)

/-- An end that is no address lies past RAM as well. -/
theorem rangeFault?_eq (addr len : Nat) :
    rangeFault? addr len = if 4096 < addr + len then some (outOfRange addr) else none := by
  unfold rangeFault? endOf?
  by_cases hend : addr + len < UInt64.size
  · rw [if_pos hend]
    by_cases hfits : addr + len ≤ size
    · exact (if_pos hfits).trans (if_neg (Nat.not_lt.2 hfits)).symm
    · exact (if_neg hfits).trans (if_pos (Nat.lt_of_not_le hfits)).symm
  · have hpast : 4096 < addr + len := Nat.lt_of_lt_of_le (by decide) (Nat.le_of_not_lt hend)
    rw [if_neg hend, if_pos hpast]

/-- A range can be accessed exactly if it ends inside RAM or at its end. -/
theorem rangeFault?_eq_none_iff {addr len : Nat} :
    rangeFault? addr len = none ↔ addr + len ≤ 4096 := by
  rw [rangeFault?_eq]
  split <;> simp <;> omega

/-- One that ends further on is reported by its first missing byte. -/
theorem rangeFault?_of_lt {addr len : Nat} (h : 4096 < addr + len) :
    rangeFault? addr len = some (outOfRange addr) := by
  rw [rangeFault?_eq, if_pos h]

/-- What `len` bytes from `addr` on give, provided that they exist. -/
def access {α : Type} (addr len : Nat) (give : addr + len ≤ 4096 → α) : Except Fault α :=
  match h : rangeFault? addr len with
  | some fault => .error fault
  | none => .ok (give (rangeFault?_eq_none_iff.1 h))

/-- Bytes that exist are given. -/
theorem access_eq_ok {α : Type} {addr len : Nat} (give : addr + len ≤ 4096 → α)
    (h : addr + len ≤ 4096) : access addr len give = .ok (give h) := by
  unfold access
  split
  · rename_i hf
    rw [rangeFault?_eq_none_iff.2 h] at hf
    cases hf
  · rfl

/-- A range that runs past the end is refused. -/
theorem access_eq_error {α : Type} {addr len : Nat} (give : addr + len ≤ 4096 → α)
    (h : 4096 < addr + len) : access addr len give = .error (outOfRange addr) := by
  unfold access
  split
  · rename_i hf
    rw [rangeFault?_of_lt h] at hf
    cases hf
    rfl
  · rename_i hf
    rw [rangeFault?_of_lt h] at hf
    cases hf

/-! ## Reading -/

/-- The `len` bytes from `addr` on. -/
def read (m : Memory) (addr len : Nat) : Except Fault (List UInt8) :=
  access addr len fun _ => List.ofFn fun i : Fin len => m.bytes[addr + i]

/-- The byte at `addr`. -/
def byte (m : Memory) (addr : Nat) : Except Fault UInt8 :=
  access addr 1 fun _ => m.bytes[addr]

/-- The two bytes at `addr` as a word, high byte first. -/
def word (m : Memory) (addr : Nat) : Except Fault UInt16 :=
  access addr 2 fun _ => wordOfBytes m.bytes[addr] m.bytes[addr + 1]

/-! ## Writing -/

/-- Why a write of `len` bytes at `addr` is refused, if it is. -/
def writeFault? (addr len : Nat) : Option Fault :=
  match rangeFault? addr len with
  | some fault => some fault
  | none => if addr < 0x200 ∧ 0 < len then some (.reservedWrite addr) else none

/-- The memory with `data` written from `addr` on. -/
def write (m : Memory) (addr : Nat) (data : List UInt8) : Except Fault Memory :=
  match writeFault? addr data.length with
  | some fault => .error fault
  | none => .ok ⟨overwrite m.bytes addr data⟩

/-- The memory with one byte written. -/
def writeByte (m : Memory) (addr : Nat) (value : UInt8) : Except Fault Memory :=
  m.write addr [value]

/-- The `len` bytes from `addr` on, provided that they may be written. -/
def writable (m : Memory) (addr len : Nat) : Except Fault (List UInt8) :=
  match writeFault? addr len with
  | some fault => .error fault
  | none => m.read addr len

/-- The write in place: a place for the bytes is handed out, and then they are copied to it, for
which it has to be as long as they are. -/
def writeM (addr : Nat) (data : List UInt8) : EStateM Stop Memory Unit := do
  let place ← InPlace.inspect fun m => Stop.ofFault (m.writable addr data.length)
  if place.length = data.length then
    modify fun m => ⟨overwrite m.bytes addr data⟩
  else throw (.defect .lengthMismatch)

/-- The write of one byte in place. -/
def writeByteM (addr : Nat) (value : UInt8) : EStateM Stop Memory Unit := writeM addr [value]

/-! ## What the operations answer -/

variable {m m' : Memory} {addr len : Nat} {data : List UInt8}

/-- Fresh memory holds the glyphs at `0x050` to `0x09F`, and zeros elsewhere. -/
theorem getElem_fresh {i : Nat} (hi : i < 4096) :
    fresh.bytes[i] =
      if 0x050 ≤ i ∧ i ≤ 0x09F then Glyphs.table.getD (i - 0x050) 0 else 0 := by
  have hzero : (Vector.replicate 4096 (0 : UInt8))[i] = 0 := Vector.getElem_replicate hi
  unfold fresh
  by_cases h : 0x050 ≤ i ∧ i ≤ 0x09F
  · have hin : i - 0x050 < Glyphs.table.length := by
      rw [Glyphs.length_table]
      omega
    have hstretch : Glyphs.start ≤ i ∧ i < Glyphs.start + Glyphs.table.length := by
      rw [Glyphs.length_table, Glyphs.start]
      omega
    rw [if_pos h, getElem_overwrite, dif_pos hstretch, List.getD_eq_getElem?_getD,
      List.getElem?_eq_getElem hin]
    rfl
  · have hstretch : ¬ (Glyphs.start ≤ i ∧ i < Glyphs.start + Glyphs.table.length) := by
      rw [Glyphs.length_table, Glyphs.start]
      omega
    rw [if_neg h, getElem_overwrite, dif_neg hstretch, hzero]

/-- A read inside RAM answers with its bytes in order. -/
theorem read_eq_ok (m : Memory) (h : addr + len ≤ 4096) :
    m.read addr len = .ok (List.ofFn fun i : Fin len => m.bytes[addr + i]) :=
  access_eq_ok _ h

/-- One that runs past the end is refused. -/
theorem read_eq_error (m : Memory) (h : 4096 < addr + len) :
    m.read addr len = .error (outOfRange addr) :=
  access_eq_error _ h

/-- What has been read lies in memory. -/
theorem le_of_read (h : m.read addr len = .ok data) : addr + len ≤ 4096 := by
  rcases Nat.lt_or_ge 4096 (addr + len) with hpast | hle
  · rw [read_eq_error m hpast] at h
    cases h
  · exact hle

/-- A read answers with as many bytes as it was asked for. -/
theorem length_of_read (h : m.read addr len = .ok data) : data.length = len := by
  rw [read_eq_ok m (le_of_read h)] at h
  injection h with hdata
  rw [← hdata, List.length_ofFn]

/-- A read looks at no other bytes than its own. -/
theorem read_congr (h : ∀ i (_ : i < 4096), addr ≤ i → i < addr + len → m'.bytes[i] = m.bytes[i]) :
    m'.read addr len = m.read addr len := by
  rcases Nat.lt_or_ge 4096 (addr + len) with hpast | hle
  · rw [read_eq_error m hpast, read_eq_error m' hpast]
  · rw [read_eq_ok m hle, read_eq_ok m' hle]
    refine congrArg (fun bytes => Except.ok (List.ofFn bytes)) (funext fun k => ?_)
    exact h (addr + k) (by omega) (Nat.le_add_right _ _) (by omega)

/-- The front of what has been read is read by itself. -/
theorem read_take (h : m.read addr len = .ok data) {n : Nat} (hn : n ≤ len) :
    m.read addr n = .ok (data.take n) := by
  have hle := le_of_read h
  rw [read_eq_ok m hle] at h
  cases h
  rw [read_eq_ok m (by omega)]
  refine congrArg Except.ok (List.ext_getElem ?_ ?_)
  · simp [hn]
  · intro i hi hi'
    simp

/-- A byte inside RAM is read. -/
theorem byte_eq_ok (m : Memory) (h : addr < 4096) : m.byte addr = .ok m.bytes[addr] :=
  access_eq_ok _ h

/-- There is none past the end. -/
theorem byte_eq_error (m : Memory) (h : 4096 ≤ addr) : m.byte addr = .error (outOfRange addr) :=
  access_eq_error _ (Nat.lt_succ_of_le h)

/-- Two bytes inside RAM are read as a word. -/
theorem word_eq_ok (m : Memory) (h : addr + 1 < 4096) :
    m.word addr = .ok (wordOfBytes m.bytes[addr] m.bytes[addr + 1]) :=
  access_eq_ok _ h

/-- A word whose second byte is missing is refused. -/
theorem word_eq_error (m : Memory) (h : 4096 ≤ addr + 1) :
    m.word addr = .error (outOfRange addr) :=
  access_eq_error _ (Nat.lt_succ_of_le h)

/-- A range that does not exist is reported first. -/
theorem writeFault?_eq (addr len : Nat) :
    writeFault? addr len =
      if 4096 < addr + len then some (outOfRange addr)
      else if addr < 0x200 ∧ 0 < len then some (.reservedWrite addr)
      else none := by
  rw [writeFault?, rangeFault?_eq]
  by_cases h : 4096 < addr + len
  · simp only [if_pos h]
  · simp only [if_neg h]

/-- A write succeeds exactly when its bytes exist and are not reserved. -/
theorem writeFault?_eq_none_iff :
    writeFault? addr len = none ↔ addr + len ≤ 4096 ∧ (0x200 ≤ addr ∨ len = 0) := by
  rw [writeFault?_eq]
  split
  · simp
    omega
  · split
    · simp
      omega
    · simp
      omega

/-- What a successful write leaves. -/
theorem write_eq_ok (m : Memory) (h : writeFault? addr data.length = none) :
    m.write addr data = .ok ⟨overwrite m.bytes addr data⟩ := by
  rw [write, h]

/-- A write that may not be made is refused, for the reason foretold. -/
theorem write_eq_error (m : Memory) {fault : Fault}
    (h : writeFault? addr data.length = some fault) : m.write addr data = .error fault := by
  rw [write, h]

/-- So is the place for it. -/
theorem writable_eq_error (m : Memory) {fault : Fault} (h : writeFault? addr len = some fault) :
    m.writable addr len = .error fault := by
  rw [writable, h]

/-- Whatever may be written is handed out. -/
theorem exists_writable (m : Memory) (h : writeFault? addr len = none) :
    ∃ place, m.writable addr len = .ok place := by
  rw [writable, h]
  exact ⟨_, read_eq_ok m (writeFault?_eq_none_iff.1 h).1⟩

/-- A place handed out for writing is as long as it was asked for. -/
theorem length_of_writable (h : m.writable addr len = .ok data) : data.length = len := by
  unfold writable at h
  split at h
  · cases h
  · exact length_of_read h

/-- It lies in memory. -/
theorem le_of_writable (h : m.writable addr len = .ok data) : addr + len ≤ 4096 := by
  unfold writable at h
  split at h
  · cases h
  · exact le_of_read h

/-- A write in place that is refused has changed nothing. -/
theorem run_writeM (m : Memory) (addr : Nat) (data : List UInt8) :
    (writeM addr data).run m =
      InPlace.allOrNothing m (Stop.ofFault ((m.write addr data).map ((), ·))) := by
  rw [writeM, EStateM.run_bind, InPlace.run_inspect]
  cases hf : writeFault? addr data.length with
  | some fault =>
    rw [writable_eq_error m hf, write_eq_error m hf]
    rfl
  | none =>
    obtain ⟨place, hplace⟩ := exists_writable m hf
    have hfits : place.length = data.length := length_of_writable hplace
    rw [hplace, write_eq_ok m hf]
    simp only [Stop.ofFault_ok, Except.map, InPlace.allOrNothing, if_pos hfits]
    rfl

/-- A write succeeds where its bytes exist and are not reserved, and leaves the memory with its
bytes put over it. -/
theorem write_eq_ok_iff :
    m.write addr data = .ok m' ↔
      (addr + data.length ≤ 4096 ∧ (0x200 ≤ addr ∨ data.length = 0)) ∧
        m' = ⟨overwrite m.bytes addr data⟩ := by
  rw [← writeFault?_eq_none_iff]
  unfold write
  split
  · rename_i h
    simp [h]
  · rename_i h
    simp [h, eq_comm]

/-- What has been written is read back. -/
theorem read_of_write (h : m.write addr data = .ok m') : m'.read addr data.length = .ok data := by
  obtain ⟨⟨hle, -⟩, rfl⟩ := write_eq_ok_iff.1 h
  rw [read_eq_ok _ hle]
  refine congrArg Except.ok (List.ext_getElem List.length_ofFn ?_)
  intro i hi hi'
  rw [List.getElem_ofFn]
  exact getElem_overwrite_add m.bytes addr data hi' (by omega)

end Memory

end Chip8
