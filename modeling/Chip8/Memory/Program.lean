import Chip8.Memory.Basic

/-!
# Loading a program

A program comes from a `Reader`, which hands out its bytes in chunks and ends or fails. All of
it is read before anything is written, so a failed load leaves the memory alone; how the bytes
were cut into chunks does not matter.

`Memory.load` tells what becomes of the memory, `Memory.loadM` does it in place, and `run_loadM`
says that the two agree and that a failed load finds nothing changed yet.
-/

namespace Chip8

/-- A source of bytes: chunks in order, then the end or a failure. -/
structure Reader where
  /-- The chunks that are handed out. -/
  chunks : List (List UInt8)
  /-- What happens after the last chunk: nothing more, or a failure. -/
  failure : Option IoError := none

namespace Reader

/-- Every byte of the reader, or its failure. -/
def readAll (r : Reader) : Except IoError (List UInt8) :=
  match r.failure with
  | some e => .error e
  | none => .ok r.chunks.flatten

/-- A list cut into pieces of `n + 1`; the last may be shorter. -/
def pieces (n : Nat) (bytes : List UInt8) : List (List UInt8) :=
  if h : bytes = [] then []
  else bytes.take (n + 1) :: pieces n (bytes.drop (n + 1))
termination_by bytes.length
decreasing_by
  have := List.length_pos_iff.2 h
  simp only [List.length_drop]
  omega

/-- A reader over `bytes` that hands out at most `chunk` of them at a time, at least one. With
`failing = some (n, e)` it fails with `e` when more is asked for after `n` bytes; if there are
fewer than `n`, it ends first. -/
def ofBytes (bytes : List UInt8) (chunk : Nat) (failing : Option (Nat × IoError)) : Reader :=
  match failing with
  | none => ⟨pieces (chunk - 1) bytes, none⟩
  | some (n, e) =>
    if n ≤ bytes.length then ⟨pieces (chunk - 1) (bytes.take n), some e⟩
    else ⟨pieces (chunk - 1) bytes, none⟩

end Reader

namespace Memory

/-- The memory with the reader's program at `0x200`, and the program's length. A failure of the
reader wins over a program that is too long. -/
def load (m : Memory) (r : Reader) : Except Error (Nat × Memory) :=
  match r.readAll with
  | .error e => .error (.io e)
  | .ok program =>
    if programLimit < program.length then
      .error (.programTooLarge program.length programLimit)
    else .ok (program.length, ⟨overwrite m.bytes programStart program⟩)

/-- The load in place: the program is read to its end, measured, and then copied. -/
def loadM (r : Reader) : EStateM Error Memory Nat := do
  let program ← InPlace.inspect fun _ => r.readAll.mapError .io
  if programLimit < program.length then
    throw (.programTooLarge program.length programLimit)
  else
    modify fun m => ⟨overwrite m.bytes programStart program⟩
    return program.length

/-- Fresh memory with the reader's program. -/
def ofProgram (r : Reader) : Except Error (Nat × Memory) := fresh.load r

/-- A program that is read to its end and fits is loaded. -/
theorem load_eq_ok (m : Memory) {r : Reader} {program : List UInt8}
    (hr : r.readAll = .ok program) (h : program.length ≤ programLimit) :
    m.load r = .ok (program.length, ⟨overwrite m.bytes programStart program⟩) := by
  simp only [load, hr]
  exact if_neg (Nat.not_lt.2 h)

/-- A load in place that fails has changed nothing. -/
theorem run_loadM (m : Memory) (r : Reader) :
    (loadM r).run m = InPlace.allOrNothing m (m.load r) := by
  rw [loadM, load, EStateM.run_bind, InPlace.run_inspect]
  cases r.readAll with
  | error e => rfl
  | ok program =>
    show (if programLimit < program.length then
        throw (Error.programTooLarge program.length programLimit)
      else do
        modify fun m => ⟨overwrite m.bytes programStart program⟩
        return program.length : EStateM Error Memory Nat).run m = _
    by_cases hlong : programLimit < program.length
    · simp only [if_pos hlong]
      rfl
    · simp only [if_neg hlong]
      rfl

/-- A program of one word is found where programs start. -/
theorem exists_ofProgram_word (a b : UInt8) :
    ∃ memory, ofProgram ⟨[[a, b]], none⟩ = .ok (2, memory) ∧
      memory.word programStart = .ok (wordOfBytes a b) := by
  have hread : (⟨[[a, b]], none⟩ : Reader).readAll = .ok [a, b] := rfl
  have hlen : [a, b].length ≤ programLimit := by
    show 2 ≤ programLimit
    decide
  refine ⟨_, load_eq_ok fresh hread hlen, ?_⟩
  rw [word_eq_ok _ (by decide), getElem_overwrite, getElem_overwrite]
  rfl

/-- Whatever has been loaded was put over the program area. -/
theorem exists_of_load {m m' : Memory} {r : Reader} {n : Nat} (h : m.load r = .ok (n, m')) :
    ∃ program, r.readAll = .ok program ∧ n = program.length ∧ program.length ≤ programLimit ∧
      m' = ⟨overwrite m.bytes programStart program⟩ := by
  unfold load at h
  split at h
  · cases h
  · rename_i program hr
    split at h
    · cases h
    · rename_i hle
      cases h
      exact ⟨program, hr, rfl, Nat.le_of_not_lt hle, rfl⟩

end Memory

end Chip8
