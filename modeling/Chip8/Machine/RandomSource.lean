import Chip8.Machine.ChaCha

/-!
# The source of random bytes

Each random byte is the low byte of the next word of a ChaCha stream. The state is the key of
that stream and the number of words taken, so the byte that a draw gives depends on nothing but
the seed and how many draws came before.
-/

namespace Chip8

/-- A stream and a place in it. -/
structure RandomSource where
  /-- The key of the stream. -/
  key : ChaCha.StreamKey
  /-- How many words have been taken. -/
  drawn : Nat := 0
  deriving DecidableEq

namespace RandomSource

/-- The start of the stream of a seed. -/
def ofSeed (seed : UInt64) : RandomSource := { key := ChaCha.keyOfSeed seed }

/-- Byte number `k` of a stream. -/
def byteAt (key : ChaCha.StreamKey) (k : Nat) : UInt8 := (ChaCha.word key k).toUInt8

/-- The next byte, and the place after it. -/
def next (r : RandomSource) : UInt8 × RandomSource :=
  (byteAt r.key r.drawn, { r with drawn := r.drawn + 1 })

end RandomSource

end Chip8
