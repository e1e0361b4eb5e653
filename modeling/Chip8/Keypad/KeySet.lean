/-!
# Sets of keys

The keypad has sixteen keys, 0 to F. A `KeySet` says which of them are down. `toList` lists the
keys of a set in order and `least?` is the first of them; the other operations are told by
membership (`mem_ofPred`, `mem_inter`, …).
-/

namespace Chip8

/-- One of the sixteen keys. -/
abbrev Key := Fin 16

/-- The key that a byte names, if it names one. -/
def Key.ofByte? (b : UInt8) : Option Key :=
  if h : b.toNat < 16 then some ⟨b.toNat, h⟩ else none

/-- There is a key F. -/
theorem Key.fifteen_lt : 15 < 16 := by decide

/-- Key F. -/
def Key.last : Key := ⟨15, fifteen_lt⟩

/-- A key as a byte. -/
def Key.toByte (k : Key) : UInt8 := .ofNat k

/-- A byte is a key's byte exactly if it is the number of the key. -/
theorem Key.eq_toByte_iff (k : Key) {b : UInt8} : b = k.toByte ↔ b.toNat = k := by
  have hlt := k.isLt
  have hnum : k.toByte.toNat = k := by
    rw [toByte, UInt8.toNat_ofNat']
    omega
  rw [← UInt8.toNat_inj, hnum]

/-- A set of keys. -/
structure KeySet where
  /-- For each key, whether it belongs to the set. -/
  member : Vector Bool 16
  deriving DecidableEq

namespace KeySet

instance : Membership Key KeySet := ⟨fun s k => s.member.get k = true⟩

instance (k : Key) (s : KeySet) : Decidable (k ∈ s) :=
  inferInstanceAs (Decidable (s.member.get k = true))

instance : HasSubset KeySet := ⟨fun s t => ∀ k : Key, k ∈ s → k ∈ t⟩

instance (s t : KeySet) : Decidable (s ⊆ t) :=
  inferInstanceAs (Decidable (∀ k : Key, k ∈ s → k ∈ t))

/-- The keys that pass a test. -/
def ofPred (p : Key → Bool) : KeySet := ⟨.ofFn p⟩

/-- No key. -/
def empty : KeySet := ofPred fun _ => false

/-- The set with one more key. -/
def insert (s : KeySet) (k : Key) : KeySet := ⟨s.member.setIfInBounds k true⟩

/-- The set without a key. -/
def erase (s : KeySet) (k : Key) : KeySet := ⟨s.member.setIfInBounds k false⟩

/-- The keys of both sets. -/
def inter (s t : KeySet) : KeySet := ofPred fun k => k ∈ s ∧ k ∈ t

/-- The keys of the first set that are not in the second. -/
def diff (s t : KeySet) : KeySet := ofPred fun k => k ∈ s ∧ k ∉ t

/-- The keys of a list. -/
def ofList (ks : List Key) : KeySet := ks.foldl insert empty

/-- The keys of a set, in order. -/
def toList (s : KeySet) : List Key := (List.finRange 16).filter (· ∈ s)

/-- The lowest key of a set. -/
def least? (s : KeySet) : Option Key := (List.finRange 16).find? (· ∈ s)

/-! ## Membership -/

variable {s t : KeySet} {j k : Key} {p : Key → Bool}

/-- The keys of such a set are those that pass the test. -/
@[simp] theorem mem_ofPred : k ∈ ofPred p ↔ p k = true := by
  show (Vector.ofFn p)[k.val] = true ↔ p k = true
  rw [Vector.getElem_ofFn]

/-- A key of both sets is in each. -/
@[simp] theorem mem_inter : k ∈ s.inter t ↔ k ∈ s ∧ k ∈ t := by simp [inter]

/-- A key of the difference is in the first set only. -/
@[simp] theorem mem_diff : k ∈ s.diff t ↔ k ∈ s ∧ k ∉ t := by simp [diff]

/-- Sets with the same keys are equal. -/
@[ext] theorem ext (h : ∀ k : Key, k ∈ s ↔ k ∈ t) : s = t := by
  obtain ⟨a⟩ := s
  obtain ⟨b⟩ := t
  congr 1
  apply Vector.ext
  intro i hi
  exact Bool.eq_iff_iff.2 (h ⟨i, hi⟩)

/-- Of a set and a part of it, the part is what they share. -/
theorem inter_of_subset (h : t ⊆ s) : s.inter t = t := by
  ext k
  rw [mem_inter]
  exact and_iff_right_of_imp (h k)

/-- The least key is in the set, and no lower one is. -/
theorem least?_eq_some_iff : s.least? = some k ↔ k ∈ s ∧ ∀ j < k, j ∉ s := by
  unfold least?
  rw [List.find?_eq_some_iff_getElem]
  simp only [decide_eq_true_eq, List.length_finRange, List.getElem_finRange, Fin.cast_mk]
  constructor
  · rintro ⟨hk, i, hi, rfl, hlt⟩
    exact ⟨hk, fun j hj => by simpa using hlt j hj⟩
  · rintro ⟨hk, hlt⟩
    exact ⟨hk, k, k.isLt, rfl, fun j hj => by simpa using hlt ⟨j, by omega⟩ hj⟩

/-- Only the empty set has no lowest key. -/
theorem least?_eq_none_iff : s.least? = none ↔ ∀ k : Key, k ∉ s := by
  simp [least?]

end KeySet

end Chip8
