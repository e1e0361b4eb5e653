import Chip8.Memory.Basic

/-!
# Dumps

A dump shows memory without its zeros: every maximal stretch of non-zero bytes, with the
address where it starts.
-/

namespace Chip8

/-- The maximal stretches of non-zero bytes in a list whose first byte lies at `addr`. -/
def stretches (addr : Nat) : List UInt8 → List (Nat × List UInt8)
  | [] => []
  | b :: rest =>
    if b = 0 then stretches (addr + 1) rest
    else
      match stretches (addr + 1) rest with
      | (start, data) :: more =>
        if start = addr + 1 then (addr, b :: data) :: more
        else (addr, [b]) :: (start, data) :: more
      | [] => [(addr, [b])]

/-- The stretches of the whole memory. -/
def Memory.dump (m : Memory) : List (Nat × List UInt8) := stretches 0 m.bytes.toList

end Chip8
