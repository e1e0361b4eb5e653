import Chip8.Fault
import Chip8.Terminal.Signal

/-!
# What a terminal has sent

Bytes that a terminal sends wait until they are read. They are read in pieces of limited length,
and a piece becomes signals, which then wait until they are taken.

* Reading starts only if something has been sent since the last time, so bytes that are left
  over after a full piece stay where they are until more are sent.
* Pieces are read until one of them brings a signal or nothing is left.
* A look at the keys (`Inbox.poll`) takes the signals that wait up to the next report of the
  cursor, which answers a question that nobody asked: the report is dropped, and the signals
  after it wait for the next look.
-/

namespace Chip8

/-- Bytes that were sent, and signals that were read. -/
structure Inbox where
  /-- Bytes that have not been read. -/
  unread : List UInt8 := []
  /-- Something has been sent since the last reading. -/
  fresh : Bool := false
  /-- Bytes that have been read and begin a signal. -/
  pending : List UInt8 := []
  /-- Signals that have been read and not been taken. -/
  signals : List Signal := []
  deriving DecidableEq

namespace Inbox

/-- The greatest number of bytes in a piece. -/
def pieceLength : Nat := 1204

/-- More bytes are sent. -/
def send (b : Inbox) (bytes : List UInt8) : Inbox :=
  if bytes.isEmpty then b else { b with unread := b.unread ++ bytes, fresh := true }

/-- Pieces are read until one brings a signal or nothing is left. After a full piece, more bytes
are taken to follow. -/
def read (b : Inbox) : Except Defect Inbox :=
  if _ : b.unread = [] then .ok b
  else
    let piece := b.unread.take pieceLength
    match Signal.decode (piece.length == pieceLength) b.pending piece with
    | none => .error .noSuchPlace
    | some ([], pending) => read { b with unread := b.unread.drop pieceLength, pending }
    | some (signals, pending) =>
      .ok { b with unread := b.unread.drop pieceLength, pending, signals }
termination_by b.unread.length
decreasing_by
  have := List.length_pos_iff.2 ‹¬ b.unread = []›
  have : 0 < pieceLength := by decide
  simp only [List.length_drop]
  omega

/-- The keys among some signals up to the next report of the cursor, and the signals after the
report, if there is one. -/
def takeKeys : List Signal → List KeyEvent × Option (List Signal)
  | [] => ([], none)
  | .cursor :: rest => ([], some rest)
  | .mouse :: rest => takeKeys rest
  | .key e :: rest =>
    let (events, left) := takeKeys rest
    (e :: events, left)

/-- The keys that can be taken now. -/
def poll (b : Inbox) : Except Defect (List KeyEvent × Inbox) :=
  match takeKeys b.signals with
  | (events, some left) => .ok (events, { b with signals := left })
  | (events, none) =>
    if b.fresh then
      match read { b with signals := [], fresh := false } with
      | .error d => .error d
      | .ok b =>
        let (others, left) := takeKeys b.signals
        .ok (events ++ others, { b with signals := left.getD [] })
    else .ok (events, { b with signals := [] })

end Inbox

end Chip8
