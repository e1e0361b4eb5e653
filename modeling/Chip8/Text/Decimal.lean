/-!
# Decimal numbers in texts

* `read?` is the number that digits spell, after at most one `+`.
* `fields` cuts a text at a separator, of which none is left in a field.
-/

namespace Chip8.Decimal

/-- The number that decimal digits spell, after at most one `+`. -/
def read? (cs : List Char) : Option Nat :=
  let digits := match cs with
    | '+' :: rest => rest
    | all => all
  if digits.isEmpty || !digits.all Char.isDigit then none
  else some (digits.foldl (fun n c => 10 * n + (c.toNat - '0'.toNat)) 0)

/-- The number that a text spells, if it is below a limit. -/
def readBelow? (limit : Nat) (cs : List Char) : Option Nat := (read? cs).filter (· < limit)

/-- The pieces of a text between separators; without any, the whole text is one. -/
def fields (separator : Char) : List Char → List (List Char)
  | [] => [[]]
  | c :: rest =>
    if c = separator then [] :: fields separator rest
    else (fields separator rest).modifyHead (c :: ·)

end Chip8.Decimal
