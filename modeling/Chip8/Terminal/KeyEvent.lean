/-!
# Terminal events

What a terminal tells about one typed key: which key it was, and whether Control or Alt was held
with it. Only keys with a character and the escape key are told apart. A terminal also tells of its
mouse and of its size, which do not matter here.
-/

namespace Chip8

/-- Which key was typed. -/
inductive KeyCode where
  /-- A key with a character. -/
  | char (c : Char)
  /-- The escape key. -/
  | escape
  /-- Any other key, such as return, tab or a cursor key. -/
  | other
  deriving DecidableEq

/-- A typed key with its modifiers. -/
structure KeyEvent where
  /-- The key. -/
  code : KeyCode
  /-- Control was held. -/
  control : Bool := false
  /-- Alt was held. -/
  alt : Bool := false
  deriving DecidableEq

/-- Something that a terminal tells of. -/
inductive TerminalEvent where
  /-- A key was typed. -/
  | key (e : KeyEvent)
  /-- The mouse was moved or one of its buttons used. -/
  | mouse
  /-- The terminal has another size. -/
  | resize
  deriving DecidableEq

end Chip8
