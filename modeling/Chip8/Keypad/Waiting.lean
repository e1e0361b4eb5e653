import Chip8.Keypad.KeySet

/-!
# Waiting for a key

A wait ends when a key goes down, so a key that is down already does not count until it has come
up. The wait therefore remembers the keys that have been down at every look so far. The first
look only fills that memory; each later look either finds a key that is not in it, and the
lowest such key ends the wait, or drops the keys that have come up.
-/

namespace Chip8

/-- What one look at the keypad means for a wait. -/
inductive Look where
  /-- The wait starts, with these keys down already. -/
  | begins (held : KeySet)
  /-- The wait goes on; these keys have not come up since it started. -/
  | goesOn (held : KeySet)
  /-- A key went down. -/
  | ends (key : Key)
  deriving DecidableEq

/-- A look at the keys that are `down`, during a wait that remembers `held`, or before one. -/
def look (held : Option KeySet) (down : KeySet) : Look :=
  match held with
  | none => .begins down
  | some held =>
    match (down.diff held).least? with
    | some key => .ends key
    | none => .goesOn (held.inter down)

/-- The first look of a wait notes the keys that are down. -/
@[simp] theorem look_none (down : KeySet) : look none down = .begins down := rfl

/-- A wait begins only once. -/
theorem look_some_ne_begins (held down rest : KeySet) : look (some held) down ≠ .begins rest := by
  simp only [look]
  cases (down.diff held).least? <;> simp

/-- The wait ends exactly with the lowest key that is down and not remembered. -/
theorem look_some_eq_ends_iff {held down : KeySet} {key : Key} :
    look (some held) down = .ends key ↔
      (key ∈ down ∧ key ∉ held) ∧ ∀ j < key, ¬ (j ∈ down ∧ j ∉ held) := by
  have h := KeySet.least?_eq_some_iff (s := down.diff held) (k := key)
  simp only [KeySet.mem_diff] at h
  rw [← h]
  simp only [look]
  cases (down.diff held).least? <;> simp

/-- The wait goes on exactly if every key that is down is remembered; such keys stay so. -/
theorem look_some_eq_goesOn_iff {held down rest : KeySet} :
    look (some held) down = .goesOn rest ↔
      (∀ k : Key, k ∈ down → k ∈ held) ∧ rest = held.inter down := by
  have h := KeySet.least?_eq_none_iff (s := down.diff held)
  simp only [KeySet.mem_diff, not_and, Decidable.not_not] at h
  rw [← h]
  simp only [look]
  cases (down.diff held).least? <;> simp [eq_comm]

/-- If no key has gone down, the wait remembers just the keys that are down. -/
theorem look_of_subset {held down : KeySet} (h : down ⊆ held) :
    look (some held) down = .goesOn down := by
  rw [look_some_eq_goesOn_iff, KeySet.inter_of_subset h]
  exact ⟨h, rfl⟩

/-- If a key has gone down, the wait ends with one. -/
theorem exists_look_ends {held down : KeySet} (h : ¬ down ⊆ held) :
    ∃ key, look (some held) down = .ends key := by
  cases hl : look (some held) down with
  | begins rest => exact absurd hl (look_some_ne_begins held down rest)
  | goesOn rest => exact absurd (look_some_eq_goesOn_iff.1 hl).1 h
  | ends key => exact ⟨key, rfl⟩

end Chip8
