import Chip8.Display.Recorder
import Chip8.Keypad.Manual
import Chip8.Main
import Chip8.Memory.Dump
import Chip8.Picture.Resolution
import Chip8.Proofs.Absorption
import Chip8.Proofs.ControlFlow
import Chip8.Proofs.Countdown
import Chip8.Proofs.Display.Coherence
import Chip8.Proofs.Display.Gauge
import Chip8.Proofs.Display.Independence
import Chip8.Proofs.Instruction.Assembler
import Chip8.Proofs.Keypad.Polling
import Chip8.Proofs.Keypad.Presses
import Chip8.Proofs.Keypad.Stutter
import Chip8.Proofs.Log
import Chip8.Proofs.Machine.BoundedStack
import Chip8.Proofs.Machine.Destinations
import Chip8.Proofs.Machine.FaultConditions
import Chip8.Proofs.Machine.FlaggedArithmetic
import Chip8.Proofs.Machine.Settled
import Chip8.Proofs.Memory.ByteMap
import Chip8.Proofs.Memory.Loading
import Chip8.Proofs.Memory.Reserved
import Chip8.Proofs.Pacing.Accuracy
import Chip8.Proofs.Pacing.NextDue
import Chip8.Proofs.Picture.OutOfRange
import Chip8.Proofs.Picture.Views
import Chip8.Proofs.RandomStream
import Chip8.Proofs.Run.Accounting
import Chip8.Proofs.Run.Batching
import Chip8.Proofs.Safety
import Chip8.Proofs.SavedRegisters
import Chip8.Proofs.Sprites
import Chip8.Proofs.Subroutines
import Chip8.Proofs.Terminal.Typing
import Chip8.Run.Halt
import Chip8.Run.Playback
