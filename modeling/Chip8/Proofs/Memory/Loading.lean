import Chip8.Memory.Program

/-!
# Loading is all or nothing

A load collects what its reader hands out, chunk by chunk, and looks at it only once the reader has
come to its end. Whether the program can be read, and whether it fits, is known before the first
byte of memory changes; and how the program was cut into chunks cannot be told afterwards.

* `Loading` is a load under way, and `Loading.receive` and `Loading.finish` are what happens to it:
  chunks come, and then the end or a failure. `loaded` is the whole of it, the answer and the memory
  that is left.
* `foldl_receive` is the induction over the chunks: they come one after the other, and the memory
  stays as it is.
* `load_eq_loaded`: this is what `load` does.
* `Loads` lists what a load comes to, told by the bytes of the reader and by its failure.
-/

namespace Chip8

/-- A load under way. What has come so far is kept apart from the memory that it is for. -/
structure Loading where
  /-- The memory. -/
  memory : Memory
  /-- What has come so far. -/
  come : List UInt8 := []

namespace Loading

/-- One more chunk comes. -/
def receive (l : Loading) (chunk : List UInt8) : Loading := { l with come := l.come ++ chunk }

/-- Nothing more comes, because of a failure or because that was all: the answer, and the memory
that is left. -/
def finish (l : Loading) : Option IoError → Except Error Nat × Memory
  | some e => (.error (.io e), l.memory)
  | none =>
    if Memory.programLimit < l.come.length then
      (.error (.programTooLarge l.come.length Memory.programLimit), l.memory)
    else (.ok l.come.length, ⟨overwrite l.memory.bytes Memory.programStart l.come⟩)

/-- Chunks are joined as they come, and the memory stays as it is. -/
theorem foldl_receive (l : Loading) (chunks : List (List UInt8)) :
    chunks.foldl receive l = { l with come := l.come ++ chunks.flatten } := by
  induction chunks generalizing l with
  | nil => rw [List.foldl_nil, List.flatten_nil, List.append_nil]
  | cons chunk rest ih =>
    rw [List.foldl_cons, ih, List.flatten_cons, ← List.append_assoc]
    rfl

end Loading

namespace Memory

/-- A load, chunk by chunk: the answer, and the memory that is left. -/
def loaded (m : Memory) (r : Reader) : Except Error Nat × Memory :=
  (r.chunks.foldl Loading.receive { memory := m }).finish r.failure

/-- What a load comes to. -/
structure Loads (m : Memory) (r : Reader) (answer : Except Error Nat) (left : Memory) : Prop where
  /-- It fails if the reader does, however much has come before, and with the same failure. -/
  unreadable : ∀ e, answer = .error (.io e) ↔ r.failure = some e
  /-- If the reader does not, it fails if the program is too long. -/
  tooLarge : ∀ size limit, answer = .error (.programTooLarge size limit) ↔
    r.failure = none ∧ 3584 < r.chunks.flatten.length ∧
      size = r.chunks.flatten.length ∧ limit = 3584
  /-- If neither is the case, it answers with the length of the program. -/
  complete : ∀ n, answer = .ok n ↔
    r.failure = none ∧ r.chunks.flatten.length ≤ 3584 ∧ n = r.chunks.flatten.length
  /-- Then the program lies where programs start. -/
  placed : ∀ n, answer = .ok n → ∀ k (_ : k < r.chunks.flatten.length) (_ : 0x200 + k < 4096),
    left.bytes[0x200 + k] = r.chunks.flatten[k]
  /-- Every byte before and after it is as it was. -/
  around : ∀ n, answer = .ok n → ∀ i (_ : i < 4096),
    i < 0x200 ∨ 0x200 + r.chunks.flatten.length ≤ i → left.bytes[i] = m.bytes[i]
  /-- A load that fails leaves every byte as it was. -/
  kept : ∀ error, answer = .error error → ∀ i (_ : i < 4096), left.bytes[i] = m.bytes[i]

variable {m : Memory} {r : Reader}

/-! ## The ways in which a load goes -/

/-- A load sees the chunks as one program. -/
theorem loaded_eq (m : Memory) (r : Reader) :
    m.loaded r = Loading.finish { memory := m, come := r.chunks.flatten } r.failure := by
  rw [loaded, Loading.foldl_receive, List.nil_append]

/-- A reader that fails leaves the memory. -/
theorem loaded_of_failure {e : IoError} (h : r.failure = some e) :
    m.loaded r = (.error (.io e), m) := by
  rw [loaded_eq, h]
  rfl

/-- So does one whose program is too long. -/
theorem loaded_of_tooLarge (h : r.failure = none) (hlong : 3584 < r.chunks.flatten.length) :
    m.loaded r = (.error (.programTooLarge r.chunks.flatten.length 3584), m) := by
  rw [loaded_eq, h]
  exact if_pos hlong

/-- A program that fits is put over the program area. -/
theorem loaded_of_fits (h : r.failure = none) (hfits : r.chunks.flatten.length ≤ 3584) :
    m.loaded r = (.ok r.chunks.flatten.length, ⟨overwrite m.bytes 0x200 r.chunks.flatten⟩) := by
  rw [loaded_eq, h]
  exact if_neg (Nat.not_lt.2 hfits)

/-- Loading from a reader that fails does what it should. -/
theorem loads_of_failure {e : IoError} (h : r.failure = some e) :
    m.Loads r (.error (.io e)) m where
  unreadable e' := by simp [h]
  tooLarge := by simp [h]
  complete := by simp [h]
  placed := nofun
  around := nofun
  kept _ _ _ _ := rfl

/-- So does loading a program that is too long. -/
theorem loads_of_tooLarge (h : r.failure = none) (hlong : 3584 < r.chunks.flatten.length) :
    m.Loads r (.error (.programTooLarge r.chunks.flatten.length 3584)) m where
  unreadable := by simp [h]
  tooLarge size limit := by
    constructor
    · rintro ⟨⟩
      exact ⟨h, hlong, rfl, rfl⟩
    · rintro ⟨-, -, rfl, rfl⟩
      rfl
  complete n := by
    constructor
    · nofun
    · rintro ⟨-, hfits, -⟩
      exact absurd hfits (Nat.not_le.2 hlong)
  placed := nofun
  around := nofun
  kept _ _ _ _ := rfl

/-- So does loading one that fits. -/
theorem loads_of_fits (h : r.failure = none) (hfits : r.chunks.flatten.length ≤ 3584) :
    m.Loads r (.ok r.chunks.flatten.length) ⟨overwrite m.bytes 0x200 r.chunks.flatten⟩ where
  unreadable := by simp [h]
  tooLarge size limit := by
    constructor
    · nofun
    · rintro ⟨-, hlong, -⟩
      exact absurd hfits (Nat.not_le.2 hlong)
  complete n := by
    constructor
    · rintro ⟨⟩
      exact ⟨h, hfits, rfl⟩
    · rintro ⟨-, -, rfl⟩
      rfl
  placed _ _ _ hk hi := getElem_overwrite_add m.bytes 0x200 r.chunks.flatten hk hi
  around _ _ _ hi hout := by
    rcases hout with hbelow | habove
    · exact getElem_overwrite_of_lt m.bytes r.chunks.flatten hi hbelow
    · exact getElem_overwrite_of_ge m.bytes r.chunks.flatten hi habove
  kept := nofun

/-! ## The whole of a load -/

/-- A load comes to what the bytes of its reader and its failure tell. -/
theorem loads_loaded (m : Memory) (r : Reader) : m.Loads r (m.loaded r).1 (m.loaded r).2 := by
  cases hend : r.failure with
  | some e =>
    rw [loaded_of_failure hend]
    exact loads_of_failure hend
  | none =>
    rcases Nat.lt_or_ge 3584 r.chunks.flatten.length with hlong | hfits
    · rw [loaded_of_tooLarge hend hlong]
      exact loads_of_tooLarge hend hlong
    · rw [loaded_of_fits hend hfits]
      exact loads_of_fits hend hfits

/-- Loading chunk by chunk is what `load` does. -/
theorem load_eq_loaded (m : Memory) (r : Reader) :
    m.load r = (m.loaded r).1.map fun n => (n, (m.loaded r).2) := by
  rw [loaded_eq, load, Reader.readAll]
  cases r.failure with
  | some e => rfl
  | none =>
    dsimp only [Loading.finish]
    split <;> rfl

/-- Two readers of the same bytes with the same end are loaded alike. -/
theorem loaded_congr {r' : Reader} (hbytes : r'.chunks.flatten = r.chunks.flatten)
    (hend : r'.failure = r.failure) (m : Memory) : m.loaded r' = m.loaded r := by
  rw [loaded_eq, loaded_eq, hbytes, hend]

/-- **A program is loaded wholly or not at all.** Whatever the memory holds and whatever the reader
hands out, a load comes to one of three things: the failure of the reader, even when too much has
come before it; the refusal of a program that is too long; or the program in its place and nothing
else changed. A load that fails changes nothing. It does not matter how the bytes are cut into
chunks, and loading into fresh memory is no different from loading into any other. -/
theorem load_all_or_nothing (m : Memory) (r : Reader) :
    m.Loads r (m.loaded r).1 (m.loaded r).2 ∧
      m.load r = (m.loaded r).1.map (fun n => (n, (m.loaded r).2)) ∧
      (∀ r' : Reader, r'.chunks.flatten = r.chunks.flatten → r'.failure = r.failure →
        m.loaded r' = m.loaded r ∧ m.load r' = m.load r) ∧
      ofProgram r = fresh.load r := by
  refine ⟨loads_loaded m r, load_eq_loaded m r, ?_, rfl⟩
  intro r' hbytes hend
  have hsame := loaded_congr hbytes hend m
  exact ⟨hsame, by rw [load_eq_loaded, load_eq_loaded, hsame]⟩

end Memory

end Chip8
