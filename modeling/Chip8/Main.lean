import Chip8.CommandLine.Session

/-!
# The command

Runs a program in the terminal. Everything it decides is decided by `Setup.prepare` and
`Run.round`; what is left is to read the file, the clock and the keyboard, to print the panel
when the picture has changed, and to sleep between rounds. The terminal has to pass on keys as
they are typed and not echo them. A thread of its own waits for keys, and it ends with the first
key after the run.
-/

namespace Chip8.Command

/-- How to use the command. -/
def usage : String :=
  "Run a CHIP-8 program in the terminal. Esc quits.\n\n" ++
  "Usage: chip8 [--rate N] [--seed N] [--cycles N] [--key-hold-ms N] PROGRAM"

/-- What a failed access to a file means. -/
def refusal : IO.Error → IoError
  | .noFileOrDirectory .. => .missingFile
  | .inappropriateType .. => .directory
  | e => .device (toString e)

/-- The program in a file. A directory opens, but cannot be read. -/
def openProgram (path : String) : IO (Except IoError Reader) := do
  try
    let bytes ← IO.FS.readBinFile path
    return .ok ⟨[bytes.toList], none⟩
  catch e =>
    let e := refusal e
    return if e = .directory then .ok ⟨[], some e⟩ else .error e

/-- A seed from the system. -/
def anySeed : IO UInt64 := do
  let bytes ← IO.getRandomBytes 8
  return .ofNat (bytes.toList.foldl (fun n b => 256 * n + b.toNat) 0)

/-- Keys are collected as they are typed. -/
partial def collect (input : IO.FS.Stream) (typed : IO.Ref (List UInt8)) : IO Unit := do
  let bytes ← input.read 1024
  if bytes.isEmpty then return
  typed.modify (· ++ bytes.toList)
  collect input typed

/-- The panel is printed over the one before. -/
def printPanel (output : IO.FS.Stream) (screen : Option Frame) : IO Unit := do
  output.putStr ("\x1b[H" ++ String.intercalate "\r\n" (Panel.shown screen) ++ "\r\n")
  output.flush

/-- Rounds are run until the run ends. -/
partial def play (output : IO.FS.Stream) (typed : IO.Ref (List UInt8)) (limit : Option Nat)
    (r : Run (Option Frame) Terminal) : IO Ending := do
  let bytes ← typed.modifyGet fun bytes => (bytes, [])
  let now ← IO.monoNanosNow
  let shown := r.vm.screen
  let r := { r with world := { r.world with inbox := r.world.inbox.send bytes, now } }
  let (ending, r) := r.round Panel.display Terminal.host limit
  if r.vm.screen ≠ shown then printPanel output r.vm.screen
  match ending with
  | some ending => return ending
  | none =>
    IO.sleep (UInt32.ofNat ((r.world.now - now) / 1000000))
    play output typed limit r

/-- A session in the terminal. -/
def session (args : Arguments) : IO Session := do
  match Setup.prepare args (← openProgram args.path) (← anySeed) with
  | .error failure => return .ofFailure failure []
  | .ok setup =>
    let typed ← IO.mkRef []
    let input ← IO.getStdin
    let _ ← IO.asTask (collect input typed) .dedicated
    let output ← IO.getStdout
    output.putStr "\x1b[2J"
    let last ← IO.monoNanosNow
    let ending ← play output typed setup.limit
      { vm := setup.vm, pacer := setup.pacer, world := setup.world, last }
    return .ofEnding ending []

/-- The exit code of a command line. -/
def exitCode (arguments : List String) : IO UInt32 := do
  match Invocation.ofArguments arguments with
  | .information =>
    IO.println usage
    return 0
  | .misuse =>
    IO.eprintln usage
    return 2
  | .run args =>
    let ended ← session args
    if let some line := ended.diagnosis then IO.eprintln line
    return .ofNat ended.exit

end Chip8.Command

/-- The program: its arguments make a command, and what becomes of that its exit code. -/
def main (arguments : List String) : IO UInt32 := Chip8.Command.exitCode arguments
