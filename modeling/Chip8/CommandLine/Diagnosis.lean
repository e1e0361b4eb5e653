import Chip8.Fault

/-!
# Diagnoses

When a run fails, the command says why in one line: the error written as a term, the name of its
kind with its fields in braces, numbers in decimal. A failure to open the program is written
alone, any other refusal of the outside world inside its kind `Io`.
-/

namespace Chip8

/-- A kind with fields, each a name and a text. -/
def record (kind : String) (fields : List (String × String)) : String :=
  kind ++ " \x7b " ++ ", ".intercalate (fields.map fun f => f.1 ++ ": " ++ f.2) ++ " \x7d"

/-- A text in quotes. The texts of errors hold neither quotes nor backslashes. -/
def quoted (text : String) : String := "\"" ++ text ++ "\""

/-- A fault as a term. -/
def Fault.term : Fault → String
  | unknownInstruction word => record "UnknownInstruction" [("word", toString word.toNat)]
  | stackOverflow => "StackOverflow"
  | stackUnderflow => "StackUnderflow"
  | addressOutOfRange addr => record "AddressOutOfRange" [("addr", toString addr)]
  | reservedWrite addr => record "ReservedWrite" [("addr", toString addr)]
  | badProgramCounter => "BadProgramCounter"
  | invalidKey key => record "InvalidKey" [("key", toString key.toNat)]

/-- A refusal of the outside world as a term. -/
def IoError.term : IoError → String
  | system code kind text =>
    record "Os" [("code", toString code), ("kind", kind), ("message", quoted text)]
  | device text => record "Custom" [("kind", "Other"), ("error", quoted text)]

/-- An error as a term. -/
def Error.term : Error → String
  | programTooLarge size limit =>
    record "ProgramTooLarge" [("size", toString size), ("max", toString limit)]
  | invalidRate rate lowest highest =>
    record "InvalidRate"
      [("rate", toString rate), ("min", toString lowest), ("max", toString highest)]
  | io e => "Io(" ++ e.term ++ ")"
  | fatal pc fault => record "Fatal" [("pc", toString pc.toNat), ("fault", fault.term)]

/-- The line that tells of a failure. -/
def diagnosis (term : String) : String := "Error: " ++ term

end Chip8
