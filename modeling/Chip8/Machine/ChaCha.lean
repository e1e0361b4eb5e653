/-!
# The ChaCha stream with twelve rounds

A key of eight words selects a stream of words. The stream comes in blocks of sixteen, written
as four rows of four: block number `n` is made from a row of constants, two rows of key, and a
row with the number `n` in 64 bits (low word first) and two zeros, stirred by six double rounds
and then added to what it started from.

* `Row` is a row of words; the stirring works on all four columns of the rows at once.
* `block key n` is one block, `word key k` the word number `k` of the stream.
* `keyOfSeed` spreads a seed of 64 bits over a key: the seed is stepped by a linear congruence,
  and each step gives one word by a shift and a rotation that depends on its high bits.
-/

namespace Chip8.ChaCha

/-! ## Words and rows -/

/-- A word turned left by `n` bits, `0 < n < 32`. -/
def rotateLeft (w n : UInt32) : UInt32 := (w <<< n) ||| (w >>> (32 - n))

/-- A word turned right by `n` bits; `n = 0` leaves it. -/
def rotateRight (w n : UInt32) : UInt32 := (w >>> n) ||| (w <<< ((32 - n) % 32))

/-- Four words. -/
structure Row where
  w0 : UInt32
  w1 : UInt32
  w2 : UInt32
  w3 : UInt32
  deriving DecidableEq

namespace Row

/-- The sums of two rows, word by word. -/
def add (a b : Row) : Row := ⟨a.w0 + b.w0, a.w1 + b.w1, a.w2 + b.w2, a.w3 + b.w3⟩

/-- The exclusive or of two rows with each word turned left by `n` bits. -/
def xorTurn (a b : Row) (n : UInt32) : Row :=
  ⟨rotateLeft (a.w0 ^^^ b.w0) n, rotateLeft (a.w1 ^^^ b.w1) n,
    rotateLeft (a.w2 ^^^ b.w2) n, rotateLeft (a.w3 ^^^ b.w3) n⟩

/-- The words moved one place to the left, the first to the end. -/
def shift (a : Row) : Row := ⟨a.w1, a.w2, a.w3, a.w0⟩

/-- The words in order. -/
def toList (a : Row) : List UInt32 := [a.w0, a.w1, a.w2, a.w3]

end Row

/-! ## Blocks -/

/-- Sixteen words in four rows. -/
structure Block where
  a : Row
  b : Row
  c : Row
  d : Row
  deriving DecidableEq

namespace Block

/-- Each column stirred: two words take turns at being added to and mixed into a third. -/
def stir (s : Block) : Block :=
  let a := s.a.add s.b
  let d := s.d.xorTurn a 16
  let c := s.c.add d
  let b := s.b.xorTurn c 12
  let a := a.add b
  let d := d.xorTurn a 8
  let c := c.add d
  let b := b.xorTurn c 7
  ⟨a, b, c, d⟩

/-- The diagonals made columns: row number `i` moved `i` places to the left. -/
def slant (s : Block) : Block :=
  ⟨s.a, s.b.shift, s.c.shift.shift, s.d.shift.shift.shift⟩

/-- The columns made diagonals again. -/
def straighten (s : Block) : Block :=
  ⟨s.a, s.b.shift.shift.shift, s.c.shift.shift, s.d.shift⟩

/-- A round over the columns and one over the diagonals. -/
def doubleRound (s : Block) : Block := s.stir.slant.stir.straighten

/-- The sums of two blocks, word by word. -/
def add (s t : Block) : Block := ⟨s.a.add t.a, s.b.add t.b, s.c.add t.c, s.d.add t.d⟩

/-- The words in order, row by row. -/
def toList (s : Block) : List UInt32 := s.a.toList ++ s.b.toList ++ s.c.toList ++ s.d.toList

end Block

/-! ## The stream -/

/-- Eight words that select a stream. -/
structure StreamKey where
  low : Row
  high : Row
  deriving DecidableEq

/-- The row that every block begins with. -/
def constants : Row := ⟨0x61707865, 0x3320646e, 0x79622d32, 0x6b206574⟩

/-- What block number `n` is made from. -/
def input (key : StreamKey) (n : Nat) : Block :=
  ⟨constants, key.low, key.high, ⟨.ofNat n, .ofNat (n / 0x100000000), 0, 0⟩⟩

/-- Block number `n` of the stream. -/
def block (key : StreamKey) (n : Nat) : Block :=
  let start := input key n
  start.add (Nat.repeat Block.doubleRound 6 start)

/-- Word number `k` of the stream. -/
def word (key : StreamKey) (k : Nat) : UInt32 := (block key (k / 16)).toList.getD (k % 16) 0

/-! ## Keys -/

/-- One step of the congruence. -/
def stepSeed (s : UInt64) : UInt64 := s * 6364136223846793005 + 11634580027462260723

/-- The word that a state of the congruence gives. -/
def seedWord (s : UInt64) : UInt32 :=
  rotateRight (((s >>> 18) ^^^ s) >>> 27).toUInt32 (s >>> 59).toUInt32

/-- The word of the state that is `n` steps after a seed. -/
def seedWordAfter (n : Nat) (seed : UInt64) : UInt32 := seedWord (Nat.repeat stepSeed n seed)

/-- The key of a seed: the words of its next eight states. -/
def keyOfSeed (seed : UInt64) : StreamKey where
  low := ⟨seedWordAfter 1 seed, seedWordAfter 2 seed, seedWordAfter 3 seed, seedWordAfter 4 seed⟩
  high := ⟨seedWordAfter 5 seed, seedWordAfter 6 seed, seedWordAfter 7 seed, seedWordAfter 8 seed⟩

end Chip8.ChaCha
