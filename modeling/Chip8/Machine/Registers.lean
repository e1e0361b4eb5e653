import Chip8.Memory.Bytes

/-!
# Registers

The machine keeps sixteen byte registers V0 to VF, the index register and the program counter
outside of RAM. VF doubles as the flag of the arithmetic and drawing instructions.

A `Register` is one of the sixteen. Instructions name registers by bytes, and
`Register.ofByte?` says which bytes do so; the operations themselves cannot miss.
-/

namespace Chip8

/-- One of the registers V0 to VF. -/
abbrev Register := Fin 16

namespace Register

/-- The register that a byte names, if it names one. -/
def ofByte? (b : UInt8) : Option Register :=
  if h : b.toNat < 16 then some ⟨b.toNat, h⟩ else none

/-- There is a register V0. -/
theorem zero_lt : 0 < 16 := by decide

/-- There is a register VF. -/
theorem fifteen_lt : 15 < 16 := by decide

/-- V0. -/
def first : Register := ⟨0, zero_lt⟩

/-- VF. -/
def flag : Register := ⟨15, fifteen_lt⟩

/-- A byte below sixteen names the register of its number. -/
theorem ofByte?_eq_some {b : UInt8} (h : b < 16) :
    ofByte? b = some ⟨b.toNat, UInt8.lt_iff_toNat_lt.1 h⟩ := by
  rw [ofByte?, dif_pos]

end Register

/-- What the registers hold. -/
structure Registers where
  /-- V0 to VF. -/
  v : Vector UInt8 16 := .replicate 16 0
  /-- The index register. -/
  index : UInt16 := 0
  /-- The program counter. -/
  pc : UInt16 := 0x200
  deriving DecidableEq

namespace Registers

/-- What Vr holds. -/
def get (rs : Registers) (r : Register) : UInt8 := rs.v.get r

/-- Vr set to a byte. -/
def set (rs : Registers) (r : Register) (b : UInt8) : Registers :=
  { rs with v := rs.v.setIfInBounds r b }

/-- VF set to one or zero. -/
def setFlag (rs : Registers) (on : Bool) : Registers := rs.set .flag (if on then 1 else 0)

/-- V0 to Vr, in order. -/
def upTo (rs : Registers) (r : Register) : List UInt8 := rs.v.toList.take (r + 1)

/-- V0 to Vr set to the bytes of a list, which has to have that many. -/
def setUpTo? (rs : Registers) (r : Register) (bytes : List UInt8) : Option Registers :=
  if bytes.length = r + 1 then some { rs with v := overwrite rs.v 0 bytes } else none

variable (rs : Registers) (r q : Register) (b : UInt8) (on : Bool)

/-- Setting a register changes no other. -/
theorem get_set : (rs.set r b).get q = if r = q then b else rs.get q := by
  show (rs.v.setIfInBounds r b)[q.val] = if r = q then b else rs.v[q.val]
  rw [Vector.getElem_setIfInBounds q.isLt]
  simp only [Fin.ext_iff]

/-- A register holds what it has been set to. -/
@[simp] theorem get_set_self : (rs.set r b).get r = b := by simp [get_set]

/-- Setting the flag changes VF only. -/
theorem get_setFlag :
    (rs.setFlag on).get q = if q = .flag then (if on then 1 else 0) else rs.get q := by
  rw [setFlag, get_set]
  simp only [eq_comm]

/-- V0 to Vr are as many as their numbers, zero included. -/
@[simp] theorem length_upTo : (rs.upTo r).length = r + 1 := by
  have h := r.isLt
  rw [upTo, List.length_take, Vector.length_toList]
  omega

/-- The byte at place `q` is the one of register `q`. -/
theorem getElem?_upTo (h : q ≤ r) : (rs.upTo r)[q.val]? = some (rs.get q) := by
  have hle : q.val < r.val + 1 := Nat.lt_succ_of_le h
  show (rs.v.toList.take (r + 1))[q.val]? = some rs.v[q.val]
  rw [List.getElem?_take_of_lt hle]
  simp

/-- Fewer registers are the front of more. -/
theorem take_upTo (h : q ≤ r) : (rs.upTo r).take (q + 1) = rs.upTo q := by
  have hle : q.val + 1 ≤ r.val + 1 := Nat.succ_le_succ h
  rw [upTo, List.take_take, Nat.min_eq_left hle, upTo]

/-- Where V0 to Vr of other registers are put over the registers, those are the others'. -/
theorem get_overwrite_upTo (others : Registers) :
    get { rs with v := overwrite rs.v 0 (others.upTo r) } q =
      if q ≤ r then others.get q else rs.get q := by
  show (overwrite rs.v 0 (others.upTo r))[q.val] = _
  by_cases h : q ≤ r
  · have hle : q.val ≤ r.val := h
    have hin : q.val < (others.upTo r).length := by
      rw [length_upTo]
      omega
    have hget := getElem?_upTo others r q h
    rw [List.getElem?_eq_getElem hin, Option.some.injEq] at hget
    rw [getElem_overwrite, dif_pos (by omega), if_pos h]
    exact hget
  · have hlt : r.val < q.val := Nat.lt_of_not_le h
    have hout : 0 + (others.upTo r).length ≤ q.val := by
      rw [length_upTo]
      omega
    rw [getElem_overwrite_of_ge rs.v _ q.isLt hout, if_neg h]
    rfl

/-- As many bytes as there are registers are put over them. -/
theorem setUpTo?_eq_some {bytes : List UInt8} (h : bytes.length = r + 1) :
    rs.setUpTo? r bytes = some { rs with v := overwrite rs.v 0 bytes } := by
  rw [setUpTo?, if_pos h]

end Registers

end Chip8
