import Chip8.Keypad.Scans
import Chip8.Run.Loop

/-!
# A world that plays back

For trying out runs without a keyboard and without waiting: the keys come from a list of scans,
the clock moves only by sleeping and so keeps exact time, and everything that is logged is kept.
-/

namespace Chip8

/-- The state of the played-back world. -/
structure Playback where
  /-- The scans that are left. -/
  scans : Scans
  /-- The run is to halt. -/
  halt : Bool := false
  /-- How polling fails, if it does. -/
  pollFailure : Option IoError := none
  /-- The time. -/
  now : Nat := 0
  /-- What has been logged. -/
  log : Array Message := #[]

namespace Playback

/-- The played-back world, around a run. -/
def host : Host Playback where
  halted w := w.halt
  poll w :=
    match w.pollFailure with
    | some e => (.error (.refused e), w)
    | none => (.ok (), w)
  clock w := w.now
  keys w := w.scans.down
  observe report w :=
    { w with
      scans := w.scans.after report.asked
      halt := w.halt || w.scans.exhausted report.asked
      log := w.log ++ report.log.toArray }
  sleep time w := { w with now := w.now + time }

end Playback

end Chip8
