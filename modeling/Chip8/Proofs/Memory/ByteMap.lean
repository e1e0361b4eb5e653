import Chip8.Memory.Program

/-!
# Memory is a map from addresses to bytes

Whatever sequence of writes and loads memory has gone through, some of them refused, it can be
told without looking at it what every later call answers. Whether a call is refused depends on
its range alone, and a byte is the last one that an accepted call has put there.

* `Edit` is a call that changes memory when it is accepted, `Edit.stretch?` the bytes that it then
  puts there. `perform` is the call in place, and `perform_eq` is what one call does: that stretch is
  put over the memory, or nothing.
* `lastPut?` is the last byte that a sequence of calls puts at an address, `content` what is found
  there; `Holds.editedAll` carries it through the sequence.
* `Refines` lists what the operations answer on a memory that holds a given byte map.
-/

namespace Chip8.Memory

/-- A call that changes memory, unless it is refused. -/
inductive Edit where
  /-- Bytes written from an address on. -/
  | write (addr : Nat) (data : List UInt8)
  /-- One byte written. -/
  | writeByte (addr : Nat) (value : UInt8)
  /-- A program loaded. -/
  | load (reader : Reader)

/-- Whether an operation in place has completed, and the memory as it is left. -/
def ended {ε α : Type} : EStateM.Result ε Memory α → Bool × Memory
  | .ok _ m => (true, m)
  | .error _ m => (false, m)

/-- Whether a call is accepted, and the memory as it is left by it. -/
def perform (m : Memory) : Edit → Bool × Memory
  | .write addr data => ended ((writeM addr data).run m)
  | .writeByte addr value => ended ((writeByteM addr value).run m)
  | .load reader => ended ((loadM reader).run m)

/-- The memory after a call that is accepted. -/
def edit? (m : Memory) (e : Edit) : Option Memory :=
  if (m.perform e).1 then some (m.perform e).2 else none

/-- The memory after a call, whether it is accepted or refused. -/
def edited (m : Memory) (e : Edit) : Memory := (m.perform e).2

/-- The memory after a sequence of calls. -/
def editedAll (m : Memory) (edits : List Edit) : Memory := edits.foldl edited m

/-! ## The byte map -/

/-- The bytes that a call puts into memory, and where, if it is accepted. -/
def Edit.stretch? : Edit → Option (Nat × List UInt8)
  | .write addr data =>
    if addr + data.length ≤ 4096 ∧ (0x200 ≤ addr ∨ data.length = 0) then some (addr, data) else none
  | .writeByte addr value => if 0x200 ≤ addr ∧ addr < 4096 then some (addr, [value]) else none
  | .load reader =>
    match reader.readAll with
    | .ok program => if program.length ≤ 3584 then some (0x200, program) else none
    | .error _ => none

/-- The byte that a call puts at address `i`, if it is accepted and covers it. -/
def Edit.byteAt? (e : Edit) (i : Nat) : Option UInt8 :=
  match e.stretch? with
  | some (start, data) => if start ≤ i then data[i - start]? else none
  | none => none

/-- The last byte that a sequence of calls puts at address `i`. -/
def lastPut? (i : Nat) : List Edit → Option UInt8
  | [] => none
  | e :: rest => (lastPut? i rest).or (e.byteAt? i)

/-- The byte at address `i` before any call: of a glyph, or zero. -/
def initialByte (i : Nat) : UInt8 :=
  if 0x050 ≤ i ∧ i ≤ 0x09F then Glyphs.table.getD (i - 0x050) 0 else 0

/-- The byte at address `i` after a sequence of calls. -/
def content (edits : List Edit) (i : Nat) : UInt8 := (lastPut? i edits).getD (initialByte i)

/-- The bytes of the memory are those of the map. -/
def Holds (m : Memory) (f : Nat → UInt8) : Prop := ∀ i (_ : i < 4096), m.bytes[i] = f i

/-- Fresh memory holds the initial bytes. -/
theorem holds_fresh : fresh.Holds initialByte := fun _ hi => getElem_fresh hi

variable {m : Memory} {f : Nat → UInt8}

/-! ## What one call does -/

/-- The memory with a stretch of bytes put over it, or as it was. -/
def putOver (m : Memory) : Option (Nat × List UInt8) → Bool × Memory
  | some (start, data) => (true, ⟨overwrite m.bytes start data⟩)
  | none => (false, m)

/-- A write puts its bytes over the memory, or is refused and leaves it as it was. -/
theorem ended_writeM (m : Memory) (addr : Nat) (data : List UInt8) :
    ended ((writeM addr data).run m) =
      m.putOver (if addr + data.length ≤ 4096 ∧ (0x200 ≤ addr ∨ data.length = 0) then
        some (addr, data) else none) := by
  rw [run_writeM]
  cases hw : m.write addr data with
  | ok m' =>
    obtain ⟨hplace, rfl⟩ := write_eq_ok_iff.1 hw
    rw [if_pos hplace]
    rfl
  | error fault =>
    have hplace : ¬ (addr + data.length ≤ 4096 ∧ (0x200 ≤ addr ∨ data.length = 0)) := by
      intro hplace
      rw [write_eq_ok m (writeFault?_eq_none_iff.2 hplace)] at hw
      cases hw
    rw [if_neg hplace]
    rfl

/-- **A call puts its stretch over the memory, or it is refused and leaves every byte.** -/
theorem perform_eq (m : Memory) (e : Edit) : m.perform e = m.putOver e.stretch? := by
  cases e with
  | write addr data => exact ended_writeM m addr data
  | writeByte addr value =>
    have hplace : (addr + [value].length ≤ 4096 ∧ (0x200 ≤ addr ∨ [value].length = 0)) ↔
        0x200 ≤ addr ∧ addr < 4096 := by
      rw [List.length_singleton]
      omega
    refine (ended_writeM m addr [value]).trans ?_
    rw [Edit.stretch?]
    simp only [hplace]
  | load reader =>
    rw [perform, run_loadM, load, Edit.stretch?]
    cases reader.readAll with
    | error e => rfl
    | ok program =>
      by_cases hfits : program.length ≤ 3584
      · have hnot : ¬ programLimit < program.length := Nat.not_lt.2 hfits
        simp only [if_pos hfits, if_neg hnot]
        rfl
      · have hlong : programLimit < program.length := Nat.lt_of_not_le hfits
        simp only [if_neg hfits, if_pos hlong]
        rfl

/-- A call is accepted exactly when it has a stretch. -/
theorem isSome_edit? (m : Memory) (e : Edit) : (m.edit? e).isSome = e.stretch?.isSome := by
  rw [edit?, perform_eq]
  cases e.stretch? with
  | none => rfl
  | some s => rfl

/-- A call that is refused leaves every byte. -/
theorem edited_of_refused {e : Edit} (h : m.edit? e = none) : m.edited e = m := by
  rw [edit?, perform_eq] at h
  rw [edited, perform_eq]
  cases hs : e.stretch? with
  | none => rfl
  | some s =>
    rw [hs] at h
    cases h

/-- A call puts its bytes where it covers the memory, and leaves the others. -/
theorem Holds.edited (h : m.Holds f) (e : Edit) :
    (m.edited e).Holds fun i => (e.byteAt? i).getD (f i) := by
  intro i hi
  unfold Memory.edited Edit.byteAt?
  rw [perform_eq]
  cases e.stretch? with
  | none => exact h i hi
  | some s =>
    obtain ⟨start, data⟩ := s
    show (overwrite m.bytes start data)[i] = _
    rw [getElem_overwrite, h i hi]
    by_cases hlow : start ≤ i
    · by_cases hhigh : i < start + data.length
      · have hin : i - start < data.length := by omega
        simp [hlow, hhigh, hin]
      · have hout : data.length ≤ i - start := by omega
        simp [hlow, hhigh, hout]
    · simp [hlow]

/-! ## What a sequence of calls does -/

/-- After a sequence of calls a byte is the last one put there, or as it was before them. -/
theorem Holds.editedAll (h : m.Holds f) (edits : List Edit) :
    (m.editedAll edits).Holds fun i => (lastPut? i edits).getD (f i) := by
  induction edits generalizing m f with
  | nil => exact h
  | cons e rest ih =>
    intro i hi
    have hrest : ((m.edited e).editedAll rest).bytes[i] =
        (lastPut? i rest).getD ((e.byteAt? i).getD (f i)) := ih (h.edited e) i hi
    exact hrest.trans Option.getD_or.symm

/-! ## What the operations answer -/

/-- The operations answer as the byte map `f` tells: a range is refused when its end lies past
memory, even where that end is no address of 64 bits or the range is empty; a write is also refused
when it starts in the reserved area and is not empty. -/
structure Refines (m : Memory) (f : Nat → UInt8) : Prop where
  /-- Bytes are read off the map. -/
  read : ∀ addr len, m.read addr len =
    if addr + len ≤ 4096 then .ok (List.ofFn fun k : Fin len => f (addr + k))
    else .error (.addressOutOfRange (max addr 4096))
  /-- One byte is a read of one. -/
  byte : ∀ addr, m.byte addr =
    if addr + 1 ≤ 4096 then .ok (f addr) else .error (.addressOutOfRange (max addr 4096))
  /-- A word is a read of two, high byte first. -/
  word : ∀ addr, m.word addr =
    if addr + 2 ≤ 4096 then .ok (wordOfBytes (f addr) (f (addr + 1)))
    else .error (.addressOutOfRange (max addr 4096))
  /-- A place for writing holds what is read there. -/
  writable : ∀ addr len, m.writable addr len =
    if 4096 < addr + len then .error (.addressOutOfRange (max addr 4096))
    else if addr < 0x200 ∧ 0 < len then .error (.reservedWrite addr)
    else .ok (List.ofFn fun k : Fin len => f (addr + k))
  /-- A write is an edit, or refused for one of two reasons. -/
  write : ∀ addr data, m.write addr data =
    if 4096 < addr + data.length then .error (.addressOutOfRange (max addr 4096))
    else if addr < 0x200 ∧ 0 < data.length then .error (.reservedWrite addr)
    else .ok (m.edited (.write addr data))
  /-- So is a write of one byte. -/
  writeByte : ∀ addr value, m.writeByte addr value =
    if 4096 < addr + 1 then .error (.addressOutOfRange (max addr 4096))
    else if addr < 0x200 then .error (.reservedWrite addr)
    else .ok (m.edited (.writeByte addr value))
  /-- A call is accepted exactly when it has a stretch. -/
  accepted : ∀ e, (m.edit? e).isSome = e.stretch?.isSome
  /-- A call that is refused leaves every byte. -/
  refused : ∀ e, m.edit? e = none → m.edited e = m

/-- A read answers with the bytes of the map, or is refused past the end. -/
theorem Holds.read (h : m.Holds f) (addr len : Nat) :
    m.read addr len =
      if addr + len ≤ 4096 then .ok (List.ofFn fun k : Fin len => f (addr + k))
      else .error (.addressOutOfRange (max addr 4096)) := by
  by_cases hrange : addr + len ≤ 4096
  · rw [if_pos hrange, read_eq_ok m hrange]
    refine congrArg (fun bytes => Except.ok (List.ofFn bytes)) (funext fun k => ?_)
    exact h (addr + k) (by omega)
  · rw [if_neg hrange]
    exact read_eq_error m (Nat.lt_of_not_le hrange)

/-- So does a read of one byte. -/
theorem Holds.byte (h : m.Holds f) (addr : Nat) :
    m.byte addr =
      if addr + 1 ≤ 4096 then .ok (f addr) else .error (.addressOutOfRange (max addr 4096)) := by
  by_cases hrange : addr + 1 ≤ 4096
  · rw [if_pos hrange, byte_eq_ok m hrange, h addr hrange]
  · rw [if_neg hrange]
    exact byte_eq_error m (by omega)

/-- So does a read of a word. -/
theorem Holds.word (h : m.Holds f) (addr : Nat) :
    m.word addr =
      if addr + 2 ≤ 4096 then .ok (wordOfBytes (f addr) (f (addr + 1)))
      else .error (.addressOutOfRange (max addr 4096)) := by
  by_cases hrange : addr + 2 ≤ 4096
  · rw [if_pos hrange, word_eq_ok m hrange, h addr (by omega), h (addr + 1) hrange]
  · rw [if_neg hrange]
    exact word_eq_error m (by omega)

/-- A place for writing holds the bytes of the map, if it may be written. -/
theorem Holds.writable (h : m.Holds f) (addr len : Nat) :
    m.writable addr len =
      if 4096 < addr + len then .error (.addressOutOfRange (max addr 4096))
      else if addr < 0x200 ∧ 0 < len then .error (.reservedWrite addr)
      else .ok (List.ofFn fun k : Fin len => f (addr + k)) := by
  rw [Memory.writable, writeFault?_eq]
  by_cases hpast : 4096 < addr + len
  · simp only [if_pos hpast]
    rfl
  · by_cases hlow : addr < 0x200 ∧ 0 < len
    · simp only [if_neg hpast, if_pos hlow]
    · simp only [if_neg hpast, if_neg hlow, h.read addr len, if_pos (Nat.le_of_not_lt hpast)]

/-- A write whose range does not exist is refused for that, one that starts in the reserved area
for this, unless it is empty. -/
theorem write_eq (m : Memory) (addr : Nat) (data : List UInt8) :
    m.write addr data =
      if 4096 < addr + data.length then .error (.addressOutOfRange (max addr 4096))
      else if addr < 0x200 ∧ 0 < data.length then .error (.reservedWrite addr)
      else .ok (m.edited (.write addr data)) := by
  by_cases hpast : 4096 < addr + data.length
  · have hf : writeFault? addr data.length = some (outOfRange addr) := by
      rw [writeFault?_eq, if_pos hpast]
    rw [if_pos hpast, write_eq_error m hf, outOfRange]
  · rw [if_neg hpast]
    by_cases hlow : addr < 0x200 ∧ 0 < data.length
    · have hf : writeFault? addr data.length = some (.reservedWrite addr) := by
        rw [writeFault?_eq, if_neg hpast, if_pos hlow]
      rw [if_pos hlow, write_eq_error m hf]
    · have hf : writeFault? addr data.length = none := by
        rw [writeFault?_eq, if_neg hpast, if_neg hlow]
      rw [if_neg hlow, edited, perform, run_writeM, write_eq_ok m hf]
      rfl

/-- A write of one byte is refused for the same reasons, without one to be empty. -/
theorem writeByte_eq (m : Memory) (addr : Nat) (value : UInt8) :
    m.writeByte addr value =
      if 4096 < addr + 1 then .error (.addressOutOfRange (max addr 4096))
      else if addr < 0x200 then .error (.reservedWrite addr)
      else .ok (m.edited (.writeByte addr value)) := by
  refine (write_eq m addr [value]).trans ?_
  simp only [List.length_singleton, Nat.zero_lt_one, and_true]
  rfl

/-- Memory that holds a map refines it. -/
theorem Holds.refines (h : m.Holds f) : m.Refines f where
  read := h.read
  byte := h.byte
  word := h.word
  writable := h.writable
  write := write_eq m
  writeByte := writeByte_eq m
  accepted := isSome_edit? m
  refused _ := edited_of_refused

/-- **Memory refines a byte map.** After any sequence of writes and loads, each of them accepted or
refused, every operation answers as the map does whose bytes are the last ones put at their address,
or else the initial ones. -/
theorem refines_byte_map (edits : List Edit) :
    (fresh.editedAll edits).Refines (content edits) :=
  (holds_fresh.editedAll edits).refines

/-- A later call wins where it covers an earlier one, and one that is refused nowhere. -/
example :
    (List.range 3).map (fun k => content
      [.write 0x300 [1, 2, 3], .writeByte 0x301 9, .write 0x1FF [7, 7]] (0x300 + k)) =
      [1, 9, 3] := by
  decide

end Chip8.Memory
