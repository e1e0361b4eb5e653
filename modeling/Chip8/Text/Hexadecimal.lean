/-!
# Numbers in base sixteen

The two spellings of a number that the machine's texts use:

* `marked width n`: `0x` and lower-case digits, zero-filled until the whole text, the mark
  included, has `width` characters. A number that needs more digits keeps them all.
* `bare n`: upper-case digits alone, as in a register's name.

Both are built from `digits`, a list of characters, and `value` reads such a list back
(`value_digits`), so different numbers have different texts (`marked_inj`).
-/

namespace Chip8.Hexadecimal

/-- The base-sixteen digits of a number, most significant first, in lower case. -/
def digits (n : Nat) : List Char := Nat.toDigits 16 n

/-- `0x`, then the digits filled up with zeros to `width` characters in all. -/
def marked (width n : Nat) : String :=
  String.ofList ('0' :: 'x' :: (digits n).leftpad (width - 2) '0')

/-- The digits alone, in upper case. -/
def bare (n : Nat) : String := String.ofList ((digits n).map Char.toUpper)

/-- A marked number is its mark and its digits, filled up with zeros. -/
@[simp] theorem toList_marked (width n : Nat) :
    (marked width n).toList = '0' :: 'x' :: (digits n).leftpad (width - 2) '0' :=
  String.toList_ofList

/-- A bare number is its digits in upper case. -/
@[simp] theorem toList_bare (n : Nat) : (bare n).toList = (digits n).map Char.toUpper :=
  String.toList_ofList

/-- A byte has at most two digits. -/
theorem length_digits_le_two {n : Nat} (h : n < 256) : (digits n).length ≤ 2 :=
  (Nat.length_toDigits_le_iff (by decide) (by decide)).2 h

/-- Each digit stands for a value below sixteen. -/
theorem exists_digitChar {n : Nat} {c : Char} (h : c ∈ digits n) : ∃ d < 16, c = d.digitChar := by
  induction n using Nat.strongRecOn with
  | ind n ih =>
    rw [digits, Nat.toDigits_eq_if (by decide)] at h
    split at h
    · rename_i hlt
      exact ⟨n, hlt, List.mem_singleton.1 h⟩
    · rename_i hge
      rcases List.mem_append.1 h with hfront | hlast
      · exact ih (n / 16) (by omega) hfront
      · exact ⟨n % 16, Nat.mod_lt n (by decide), List.mem_singleton.1 hlast⟩

/-! ## Reading digits back -/

/-- The value of one digit, in either case; any other character counts as zero. -/
def digitValue (c : Char) : Nat :=
  if '0' ≤ c ∧ c ≤ '9' then c.toNat - '0'.toNat
  else if 'a' ≤ c ∧ c ≤ 'f' then c.toNat - 'a'.toNat + 10
  else if 'A' ≤ c ∧ c ≤ 'F' then c.toNat - 'A'.toNat + 10
  else 0

/-- The number that a list of digits spells. -/
def value (cs : List Char) : Nat := cs.foldl (fun n c => 16 * n + digitValue c) 0

/-- A digit's character has the value of the digit. -/
theorem digitValue_digitChar {d : Nat} (h : d < 16) : digitValue d.digitChar = d := by
  have : ∀ d : Fin 16, digitValue d.val.digitChar = d.val := by decide
  exact this ⟨d, h⟩

/-- So it has in upper case. -/
theorem digitValue_toUpper_digitChar {d : Nat} (h : d < 16) :
    digitValue d.digitChar.toUpper = d := by
  have : ∀ d : Fin 16, digitValue d.val.digitChar.toUpper = d.val := by decide
  exact this ⟨d, h⟩

/-- Digits are read from the front, and later ones go on from the value so far. -/
theorem value_append (cs ds : List Char) :
    value (cs ++ ds) = ds.foldl (fun n c => 16 * n + digitValue c) (value cs) := by
  simp [value]

/-- A digit-wise change of characters that keeps each digit's value keeps the number. -/
theorem value_map_digits {f : Char → Char} (n : Nat)
    (hf : ∀ d, d < 16 → digitValue (f d.digitChar) = d) : value ((digits n).map f) = n := by
  induction n using Nat.strongRecOn with
  | ind n ih =>
    rw [digits, Nat.toDigits_eq_if (by decide)]
    split
    · rename_i h
      simp [value, hf n h]
    · rename_i h
      rw [List.map_append, value_append]
      have := ih (n / 16) (by omega)
      rw [digits] at this
      rw [this]
      simp only [List.map_cons, List.map_nil, List.foldl_cons, List.foldl_nil]
      rw [hf (n % 16) (by omega)]
      omega

/-- A number's digits have its value. -/
@[simp] theorem value_digits (n : Nat) : value (digits n) = n := by
  simpa using value_map_digits (f := id) n fun d h => digitValue_digitChar h

/-- So they have in upper case. -/
@[simp] theorem value_map_toUpper_digits (n : Nat) :
    value ((digits n).map Char.toUpper) = n :=
  value_map_digits n fun _ h => digitValue_toUpper_digitChar h

/-- Zeros have no value, however many. -/
theorem value_replicate_zero (k : Nat) : value (List.replicate k '0') = 0 := by
  induction k with
  | zero => rfl
  | succ k ih =>
    rw [List.replicate_succ', value_append, ih]
    decide

/-- Leading zeros do not change the number. -/
theorem value_leftpad_digits (k n : Nat) : value ((digits n).leftpad k '0') = n := by
  have h : value ((digits n).leftpad k '0')
      = (digits n).foldl (fun n c => 16 * n + digitValue c) 0 := by
    rw [List.leftpad, value_append, value_replicate_zero]
  rw [h]
  exact value_digits n

/-- Numbers with one marked text are equal, whatever the widths. -/
theorem marked_inj {v w m n : Nat} (h : marked v m = marked w n) : m = n := by
  have h := String.ofList_injective h
  simp only [List.cons.injEq, true_and] at h
  rw [← value_leftpad_digits (v - 2) m, h, value_leftpad_digits]

end Chip8.Hexadecimal
