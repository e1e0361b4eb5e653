/-!
# Bits of a byte, from the left

Pictures are packed eight pixels to a byte with the leftmost pixel in the most significant bit,
so the bits of a byte are counted here from that end, from 0 to 7. A byte is its eight bits
(`eq_of_leadingBit`), and `switchBit` changes one of them (`leadingBit_switchBit`).
-/

namespace Chip8

/-- Bit `k` of a byte, counted from the most significant one. -/
def leadingBit (b : UInt8) (k : Nat) : Bool := b.toNat.testBit (7 - k)

/-- The byte with bit `k`, counted from the most significant one, switched over. -/
def switchBit (b : UInt8) (k : Nat) : UInt8 := b ^^^ .ofNat (1 <<< (7 - k))

/-- Bytes with the same eight bits are equal. -/
theorem eq_of_leadingBit {b c : UInt8} (h : ∀ k < 8, leadingBit b k = leadingBit c k) :
    b = c := by
  apply UInt8.toNat_inj.1
  apply Nat.eq_of_testBit_eq
  intro i
  by_cases hi : i < 8
  · simpa [leadingBit, show 7 - (7 - i) = i by omega] using h (7 - i) (by omega)
  · have hp : 2 ^ 8 ≤ 2 ^ i := Nat.pow_le_pow_right (by decide) (by omega)
    have hb := b.toNat_lt
    have hc := c.toNat_lt
    rw [Nat.testBit_lt_two_pow (by omega), Nat.testBit_lt_two_pow (by omega)]

/-- Switching a bit over changes that bit and no other. -/
theorem leadingBit_switchBit (b : UInt8) {j k : Nat} (hj : j < 8) (hk : k < 8) :
    leadingBit (switchBit b j) k = (leadingBit b k != decide (j = k)) := by
  have hp : 2 ^ (7 - j) < 2 ^ 8 := Nat.pow_lt_pow_right (by decide) (by omega)
  rw [leadingBit, leadingBit, switchBit, UInt8.toNat_xor, Nat.testBit_xor,
    UInt8.toNat_ofNat', Nat.one_shiftLeft, Nat.mod_eq_of_lt hp, Nat.testBit_two_pow]
  congr 1
  apply decide_eq_decide.2
  omega

/-- No bit of zero is set. -/
@[simp] theorem leadingBit_zero (k : Nat) : leadingBit 0 k = false := by
  simp [leadingBit]

end Chip8
