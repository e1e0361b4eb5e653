import Chip8.Keypad.KeySet

/-!
# The keypad on a keyboard

The four by four block of keys on the left of a keyboard stands for the keypad:

    1 2 3 4      1 2 3 C
    q w e r  =>  4 5 6 D
    a s d f      7 8 9 E
    z x c v      A 0 B F

Letters count in either case.
-/

namespace Chip8.Layout

/-- The character for each key, from key 0 to key F. -/
def characters : List Char :=
  ['x', '1', '2', '3', 'q', 'w', 'e', 'a', 's', 'd', 'z', 'c', '4', 'r', 'f', 'v']

/-- Each character with its key. -/
def table : List (Char × Key) := characters.zip (List.finRange 16)

/-- The key of a character, if it has one. -/
def key? (c : Char) : Option Key := table.lookup c.toLower

end Chip8.Layout
