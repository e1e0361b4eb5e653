import Chip8.Fault
import Chip8.Keypad.Hold
import Chip8.Keypad.Layout
import Chip8.Terminal.KeyEvent

/-!
# The keyboard as a keypad

Typed characters press the keys that the layout gives them, and each key counts as held for a
while. The escape key and Control with `c` ask for the run to be halted; Control with `c` is
therefore no press of the key that `c` stands for. Everything else that is typed is ignored.
-/

namespace Chip8

/-- What comes of asking a terminal for its next event. -/
inductive Delivery where
  /-- There is one, and it is read at a time. -/
  | event (time : Nat) (e : TerminalEvent)
  /-- It cannot be told whether there is one, or it cannot be read. -/
  | failure (e : IoError)

/-- The keys as typed so far. -/
structure Keyboard where
  /-- When each key was typed. -/
  keys : KeyHold
  /-- Halting has been asked for. -/
  halted : Bool := false

namespace Keyboard

/-- A key was typed at a time. -/
def receive (k : Keyboard) (time : Nat) (e : KeyEvent) : Keyboard :=
  match e.code, e.control with
  | .escape, _ => { k with halted := true }
  | .char 'c', true => { k with halted := true }
  | .char c, _ =>
    match Layout.key? c with
    | some key => { k with keys := k.keys.press key.toByte time }
    | none => k
  | .other, _ => k

/-- The terminal told of something at a time. Only keys matter. -/
def notice (k : Keyboard) (time : Nat) : TerminalEvent → Keyboard
  | .key e => k.receive time e
  | .mouse | .resize => k

/-- The terminal is asked for one event after the other, until it has no more or fails. What it
still has after a failure is left for the next poll. -/
def poll (k : Keyboard) : List Delivery → Except IoError Unit × Keyboard × List Delivery
  | [] => (.ok (), k, [])
  | .failure e :: rest => (.error e, k, rest)
  | .event time e :: rest => (k.notice time e).poll rest

end Keyboard

end Chip8
