/-!
# Coordinates on a canvas

A canvas keeps its coordinates with 53 significant bits, so whole numbers below `2 ^ 53` are
exact and larger ones go to the nearest number of that precision, a tie to the one whose last bit
is zero.
-/

namespace Chip8.Coordinate

/-- The distance of neighbouring coordinates near a whole number. -/
def spacing (n : Nat) : Nat := 1 <<< (n.log2 - 52)

/-- The coordinate nearest to a whole number. -/
def round (n : Nat) : Nat :=
  let below := n / spacing n
  let rest := n % spacing n
  if spacing n < 2 * rest ∨ 2 * rest = spacing n ∧ below % 2 = 1 then (below + 1) * spacing n
  else below * spacing n

end Chip8.Coordinate
