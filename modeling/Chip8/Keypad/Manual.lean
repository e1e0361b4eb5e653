import Chip8.Keypad.KeySet

/-!
# A keypad set by hand

Keys go down when they are pressed and stay down until they are released. The keypad counts how
often it was polled. Only the bytes below sixteen name keys: pressing or releasing any other is
undefined, and any other is up.
-/

namespace Chip8

/-- A keypad whose keys are pressed and released one by one. -/
structure ManualKeypad where
  /-- The keys that are down. -/
  down : KeySet := .empty
  /-- How often it was polled. -/
  polls : Nat := 0
  deriving DecidableEq

namespace ManualKeypad

/-- The keypad with a key pressed. -/
def press? (p : ManualKeypad) (key : UInt8) : Option ManualKeypad :=
  (Key.ofByte? key).map fun k => { p with down := p.down.insert k }

/-- The keypad with a key released. -/
def release? (p : ManualKeypad) (key : UInt8) : Option ManualKeypad :=
  (Key.ofByte? key).map fun k => { p with down := p.down.erase k }

/-- A keypad with some keys pressed. -/
def ofPressed? (keys : List UInt8) : Option ManualKeypad := keys.foldlM press? {}

/-- The keypad was polled. -/
def poll (p : ManualKeypad) : ManualKeypad := { p with polls := p.polls + 1 }

/-- A byte names a key that is down. -/
def isDown (p : ManualKeypad) (key : UInt8) : Bool := (Key.ofByte? key).any (· ∈ p.down)

/-- The bytes that name keys that are down, in order. -/
def downBytes (p : ManualKeypad) : List UInt8 :=
  ((List.range 256).map UInt8.ofNat).filter p.isDown

end ManualKeypad

end Chip8
