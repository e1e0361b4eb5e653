import Chip8.Keypad.KeySet

/-!
# A keypad that plays back scans

The keypad answers from a list of scans, each the set of keys that are down while it lasts. A
scan lasts until key F has been asked for; a wait for a key, which asks for all keys in order,
thus uses up one scan. When a key is asked for and no scan is left, every key is up and the
player asks for the run to be halted.
-/

namespace Chip8

/-- The scans that are left, the current one first. -/
structure Scans where
  remaining : List KeySet
  deriving DecidableEq

namespace Scans

/-- The keys that are down now. -/
def down (s : Scans) : KeySet := s.remaining.headD .empty

/-- Asking for some keys finds no scan left. -/
def exhausted (s : Scans) (asked : List Key) : Bool := s.remaining.isEmpty && !asked.isEmpty

/-- The scans after some keys have been asked for. -/
def after (s : Scans) (asked : List Key) : Scans :=
  if Key.last ∈ asked then ⟨s.remaining.tail⟩ else s

end Scans

end Chip8
