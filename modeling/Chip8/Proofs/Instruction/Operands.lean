import Chip8.Instruction.Encoding

/-!
# Operands of decoded words

A word has room for nibbles, a byte and an address of twelve bits, so whatever it decodes to has
its operands in range.

* `toNat_ofNat_nibble` and its like: a field survives being made an operand.
* `encodable_of_decode`: register numbers and counts of a decoded instruction are below sixteen,
  and its address is below `4096`. Every later bound on registers, jump targets and coordinates
  starts from here.
-/

namespace Chip8.Instruction

/-- A remainder by 16 fits a byte. -/
theorem toNat_ofNat_nibble (n : Nat) : (UInt8.ofNat (n % 16)).toNat = n % 16 := by
  rw [UInt8.toNat_ofNat']
  omega

/-- So does one by 256. -/
theorem toNat_ofNat_byte (n : Nat) : (UInt8.ofNat (n % 256)).toNat = n % 256 := by
  rw [UInt8.toNat_ofNat']
  omega

/-- A remainder by 4096 fits a word. -/
theorem toNat_ofNat_address (n : Nat) : (UInt16.ofNat (n % 4096)).toNat = n % 4096 := by
  rw [UInt16.toNat_ofNat']
  omega

/-- A remainder by 16 names a register. -/
theorem ofNat_nibble_lt (n : Nat) : UInt8.ofNat (n % 16) < 16 := by
  rw [UInt8.lt_iff_toNat_lt, toNat_ofNat_nibble]
  exact Nat.mod_lt n (by decide)

/-- A remainder by 4096 is an address of RAM. -/
theorem ofNat_address_lt (n : Nat) : UInt16.ofNat (n % 4096) < 4096 := by
  rw [UInt16.lt_iff_toNat_lt, toNat_ofNat_address]
  exact Nat.mod_lt n (by decide)

/-- Whatever a word decodes to has its operands in the range of their fields. -/
theorem encodable_of_decode {word : UInt16} {ins : Instruction} (h : decode word = .ok ins) :
    ins.Encodable := by
  have hx := ofNat_nibble_lt (word.toNat / 256)
  have hy := ofNat_nibble_lt (word.toNat / 16)
  have hn := ofNat_nibble_lt word.toNat
  have ha := ofNat_address_lt word.toNat
  simp only [decode] at h
  -- one case for each row of the table of families
  repeat' split at h
  all_goals cases h
  all_goals simp [Encodable, nibbles, address?, hx, hy, hn, ha]

/-- The only fault of a word is that it encodes nothing. -/
theorem fault_of_decode {word : UInt16} {fault : Fault} (h : decode word = .error fault) :
    fault = .unknownInstruction word := by
  simp only [decode] at h
  -- one case for each row of the table of families
  repeat' split at h
  all_goals cases h
  all_goals rfl

end Chip8.Instruction
