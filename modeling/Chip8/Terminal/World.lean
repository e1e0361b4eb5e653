import Chip8.Run.Loop
import Chip8.Terminal.Inbox
import Chip8.Terminal.Keyboard

/-!
# The world behind a terminal

Around a run in a terminal stand the keyboard, the inbox with what the terminal has sent, and a
clock. At each poll `Terminal.host` hands the keys in the inbox to the keyboard.

For playing a session back, some bytes can be kept for later: they are typed a tenth of a second
after the screen first shows something. The clock then moves only by sleeping, by showing a
picture, and once at the first poll, which has to open the keyboard.
-/

namespace Chip8

/-- The state of the world behind a terminal. -/
structure Terminal where
  /-- The keyboard. -/
  keyboard : Keyboard
  /-- What the terminal has sent. -/
  inbox : Inbox := {}
  /-- Bytes that will be typed once the screen has shown something for a while. -/
  later : List UInt8 := []
  /-- How long the next poll takes, as far as the clock does not tell by itself. -/
  opening : Nat := 0
  /-- How long showing a picture takes, as far as the clock does not tell by itself. -/
  showing : Nat := 0
  /-- When the screen first showed something. -/
  appeared : Option Nat := none
  /-- The time, in nanoseconds. -/
  now : Nat := 0

namespace Terminal

/-- How long the screen shows something before the later bytes are typed. -/
def patience : Nat := 100000000

/-- How long the first poll takes when a session is played back. -/
def openingTime : Nat := 300000

/-- How long showing a picture takes when a session is played back. -/
def showingTime : Nat := 1000000

/-- The later bytes are typed by now. -/
def laterIsDue (w : Terminal) : Bool := w.appeared.any (· + patience ≤ w.now)

/-- The later bytes are typed, if it is time. -/
def typeLater (w : Terminal) : Terminal :=
  if w.laterIsDue then { w with inbox := w.inbox.send w.later, later := [] } else w

/-- The keyboard takes in the keys that can be taken from the inbox. -/
def readKeys (w : Terminal) : Except PollFailure Unit × Terminal :=
  match w.inbox.poll with
  | .error d => (.error (.broken d), w)
  | .ok (events, inbox) =>
    match w.keyboard.poll (events.map fun e => .event w.now (.key e)) with
    | (.ok (), keyboard, _) => (.ok (), { w with keyboard, inbox })
    | (.error e, keyboard, _) => (.error (.refused e), { w with keyboard, inbox })

/-- One poll. -/
def poll (w : Terminal) : Except PollFailure Unit × Terminal :=
  readKeys (typeLater { w with now := w.now + w.opening, opening := 0 })

/-- The terminal, around a run. -/
def host : Host Terminal where
  halted w := w.keyboard.halted
  poll := poll
  clock w := w.now
  keys w := w.keyboard.keys.down w.now
  observe report w :=
    if report.outcome = .completed .presented then
      { w with appeared := w.appeared <|> some w.now, now := w.now + w.showing }
    else w
  sleep time w := { w with now := w.now + time }

end Terminal

end Chip8
