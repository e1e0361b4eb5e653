/-!
# Blocks of bytes

`overwrite` puts a list of bytes over a block of fixed size, and `getElem_overwrite` says what
each byte is afterwards: the list's inside the stretch it covers, the old one outside. Bytes
that would fall past the end are dropped, so callers check the range first.
-/

namespace Chip8

/-- The block with `data` put over it from position `start` on. -/
def overwrite {n : Nat} (block : Vector UInt8 n) (start : Nat) : List UInt8 → Vector UInt8 n
  | [] => block
  | b :: rest => overwrite (block.setIfInBounds start b) (start + 1) rest

variable {n : Nat}

/-- Inside the stretch a byte is the list's, elsewhere it is the old one. -/
theorem getElem_overwrite (block : Vector UInt8 n) (start : Nat) (data : List UInt8)
    (i : Nat) (hi : i < n) :
    (overwrite block start data)[i] =
      if h : start ≤ i ∧ i < start + data.length then data[i - start] else block[i] := by
  induction data generalizing block start with
  | nil =>
    have h : ¬ (start ≤ i ∧ i < start + ([] : List UInt8).length) := by
      simp
    rw [dif_neg h]
    rfl
  | cons b rest ih =>
    rw [overwrite, ih, Vector.getElem_setIfInBounds hi]
    by_cases hs : start = i
    · subst hs
      rw [dif_neg (by omega), if_pos rfl, dif_pos (by simp)]
      simp
    · by_cases h : start + 1 ≤ i ∧ i < start + 1 + rest.length
      · have h' : start ≤ i ∧ i < start + (b :: rest).length := by simp; omega
        have e : i - start = i - (start + 1) + 1 := by omega
        simp only [dif_pos h, dif_pos h', e, List.getElem_cons_succ]
      · have h' : ¬ (start ≤ i ∧ i < start + (b :: rest).length) := by simp; omega
        rw [dif_neg h, dif_neg h', if_neg hs]

/-- A byte below the stretch is untouched. -/
theorem getElem_overwrite_of_lt (block : Vector UInt8 n) {start i : Nat} (data : List UInt8)
    (hi : i < n) (h : i < start) : (overwrite block start data)[i] = block[i] := by
  rw [getElem_overwrite, dif_neg (by omega)]

/-- A byte past the stretch is untouched. -/
theorem getElem_overwrite_of_ge (block : Vector UInt8 n) {start i : Nat} (data : List UInt8)
    (hi : i < n) (h : start + data.length ≤ i) : (overwrite block start data)[i] = block[i] := by
  rw [getElem_overwrite, dif_neg (by omega)]

/-- A byte of the stretch is the list's. -/
theorem getElem_overwrite_add (block : Vector UInt8 n) (start : Nat) (data : List UInt8)
    {k : Nat} (hk : k < data.length) (hi : start + k < n) :
    (overwrite block start data)[start + k] = data[k] := by
  rw [getElem_overwrite, dif_pos (by omega)]
  simp

/-! ## Pairs of bytes -/

/-- The word whose high byte comes first. -/
def wordOfBytes (high low : UInt8) : UInt16 := .ofNat (256 * high.toNat + low.toNat)

/-- A word as a number, told by its bytes. -/
@[simp] theorem toNat_wordOfBytes (high low : UInt8) :
    (wordOfBytes high low).toNat = 256 * high.toNat + low.toNat := by
  have h := high.toNat_lt
  have l := low.toNat_lt
  simp only [wordOfBytes, UInt16.toNat_ofNat']
  omega

end Chip8
