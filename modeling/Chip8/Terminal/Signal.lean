import Chip8.Terminal.KeyEvent
import Chip8.Text.Decimal

/-!
# Signals

A terminal talks in bytes: a character comes as its UTF-8 bytes, a control key as a byte below
space, and everything else as a sequence that begins with the escape byte. A `Signal` is what
one such group of bytes says, and `Signal.read` is what some bytes amount to.

* The escape key sends a lone escape byte, so an escape byte with nothing after it is that key,
  and two of them are one.
* An escape byte before any other key means that Alt was held with it.
* Escape and `[` begin the sequences of cursor keys, function keys, the mouse, and reports of
  the cursor's place. Columns and rows in them are counted from one, so that a sequence that
  names column or row zero is undefined.
-/

namespace Chip8

/-- What a terminal says. -/
inductive Signal where
  /-- A key was typed. -/
  | key (e : KeyEvent)
  /-- The mouse was moved or one of its buttons used. -/
  | mouse
  /-- Where the cursor is. -/
  | cursor
  deriving DecidableEq

namespace Signal

/-- A key without a character. -/
def special : Signal := key { code := .other }

/-- What some bytes amount to. -/
inductive Reading where
  /-- The first bytes of a signal. -/
  | incomplete
  /-- Bytes that mean nothing. -/
  | meaningless
  /-- A sequence that names a place with number zero. -/
  | undefined
  /-- A whole signal. -/
  | complete (s : Signal)
  deriving DecidableEq

/-- The escape byte. -/
def escapeByte : UInt8 := 0x1B

/-! ## Characters -/

/-- The length of a UTF-8 character by its first byte; zero if no character starts with it. -/
def encodedLength (lead : UInt8) : Nat :=
  if lead < 0x80 then 1
  else if lead < 0xC0 then 0
  else if lead < 0xE0 then 2
  else if lead < 0xF0 then 3
  else if lead < 0xF8 then 4
  else 0

/-- A byte that can follow the first byte of a UTF-8 character. -/
def isContinuation (b : UInt8) : Bool := 0x80 ≤ b && b < 0xC0

/-- The character that some bytes spell, or the beginning of one. -/
def readCharacter (bytes : List UInt8) : Reading :=
  match String.fromUTF8? ⟨bytes.toArray⟩ with
  | some s =>
    match s.toList with
    | c :: _ => .complete (key { code := .char c })
    | [] => .meaningless
  | none =>
    match bytes with
    | lead :: rest =>
      if rest.all isContinuation && bytes.length < encodedLength lead then .incomplete
      else .meaningless
    | [] => .meaningless

/-- A key that does not begin with the escape byte. The control key with a letter sends the
letter's place in the alphabet, with a digit from 4 to 7 the four bytes from `1C` on. -/
def readPlain (bytes : List UInt8) : Reading :=
  match bytes with
  | [] => .incomplete
  | b :: _ =>
    if b = 0x0D ∨ b = 0x09 ∨ b = 0x7F ∨ b = 0x00 then .complete special
    else if b < 0x1B then
      .complete (key { code := .char (Char.ofNat (b.toNat + 0x60)), control := true })
    else if 0x1C ≤ b ∧ b < 0x20 then
      .complete (key { code := .char (Char.ofNat (b.toNat + 0x18)), control := true })
    else readCharacter bytes

/-! ## Numbers in sequences -/

/-- The texts between semicolons in the bytes of a sequence, if the bytes are text. -/
def parameters? (bytes : List UInt8) : Option (List (List Char)) :=
  (String.fromUTF8? ⟨bytes.toArray⟩).map fun s => Decimal.fields ';' s.toList

/-- A signal that needs `n` more numbers of columns or rows, with the parameters that follow. -/
def readPlaces (s : Signal) : Nat → List (List Char) → Reading
  | 0, _ => .complete s
  | _ + 1, [] => .meaningless
  | n + 1, field :: rest =>
    match Decimal.readBelow? 0x10000 field with
    | none => .meaningless
    | some 0 => .undefined
    | some _ => readPlaces s n rest

/-- A mouse code tells of a button that exists. Bits 0 and 1 and, from value 4 on, bits 6 and 7
number the buttons, of which there are six with the wheel. -/
def knownButton (code : Nat) : Bool := code % 4 + 4 * (code / 64) < 6

/-- The mouse, by its code and the parameters that follow; the code is raised by `offset`. -/
def readMouse (offset : Nat) : List (List Char) → Reading
  | [] => .meaningless
  | field :: rest =>
    match Decimal.readBelow? 0x100 field with
    | none => .meaningless
    | some code =>
      if offset ≤ code && knownButton (code - offset) then readPlaces mouse 2 rest
      else .meaningless

/-- The mouse in three bytes, each raised by 32. -/
def readShortMouse : List UInt8 → Reading
  | code :: x :: y :: _ =>
    if 32 ≤ code ∧ knownButton (code.toNat - 32) then
      if x ≤ 32 ∨ y ≤ 32 then .undefined else .complete mouse
    else .meaningless
  | _ => .incomplete

/-- A key by its number. -/
def readNumberedKey : List (List Char) → Reading
  | [] => .meaningless
  | field :: _ =>
    match Decimal.readBelow? 0x100 field with
    | none => .meaningless
    | some n =>
      if 1 ≤ n ∧ n ≤ 8 ∨ 11 ≤ n ∧ n ≤ 15 ∨ 17 ≤ n ∧ n ≤ 21 ∨ 23 ≤ n ∧ n ≤ 26 ∨
          28 ≤ n ∧ n ≤ 29 ∨ 31 ≤ n ∧ n ≤ 34 then
        .complete special
      else .meaningless

/-- A cursor or function key by its letter. What stands before the letter tells modifiers, which
do not matter here. -/
def readLetteredKey (letter : UInt8) : Reading :=
  if letter ∈ [0x41, 0x42, 0x43, 0x44, 0x46, 0x48, 0x50, 0x51, 0x52, 0x53] then
    .complete special
  else .meaningless

/-- A sequence of numbers with the last byte `final`; `bytes` come before that. -/
def readNumbered (bytes : List UInt8) (final : UInt8) : Reading :=
  if final = 0x4D then
    -- `M`: the mouse
    match parameters? bytes with
    | some fields => readMouse 32 fields
    | none => .meaningless
  else if final = 0x7E then
    -- `~`: a key by its number
    match parameters? bytes with
    | some fields => readNumberedKey fields
    | none => .meaningless
  else if final = 0x52 then
    -- `R`: the cursor
    match parameters? bytes with
    | some fields => readPlaces cursor 2 fields
    | none => .meaningless
  else readLetteredKey final

/-! ## Sequences -/

/-- A sequence after escape and `[`. -/
def readSequence (bytes : List UInt8) : Reading :=
  match bytes with
  | [] => .incomplete
  | b :: rest =>
    if b = 0x5B then
      -- `[`: function keys, by one letter from A to E
      match rest with
      | [] => .incomplete
      | c :: _ => if 0x41 ≤ c ∧ c ≤ 0x45 then .complete special else .meaningless
    else if b ∈ [0x41, 0x42, 0x43, 0x44, 0x46, 0x48, 0x5A] then .complete special
    else if b = 0x4D then readShortMouse rest
    else if b = 0x3C then
      -- `<`: the mouse, up to the next M or m
      match rest.getLast? with
      | some final =>
        if final = 0x4D ∨ final = 0x6D then
          match parameters? rest.dropLast with
          | some fields => readMouse 0 fields
          | none => .meaningless
        else .incomplete
      | none => .incomplete
    else if 0x30 ≤ b ∧ b ≤ 0x39 then
      -- a digit: numbers, up to a byte that ends them
      match rest.getLast? with
      | some final =>
        if 0x40 ≤ final ∧ final ≤ 0x7E then readNumbered bytes.dropLast final
        else .incomplete
      | none => .incomplete
    else .meaningless

/-- The key with Alt held. -/
def withAlt : Reading → Reading
  | .complete (key e) => .complete (key { e with alt := true })
  | reading => reading

/-- What bytes amount to; `more` says whether others are known to follow. -/
def read (more : Bool) (bytes : List UInt8) : Reading :=
  match bytes with
  | [] => .incomplete
  | b :: rest =>
    if b ≠ escapeByte then readPlain bytes
    else
      match rest with
      | [] => if more then .incomplete else .complete (key { code := .escape })
      | c :: tail =>
        if c = escapeByte then .complete (key { code := .escape })
        else if c = 0x5B then readSequence tail
        else if c = 0x4F then
          -- `O`: function keys, by one letter from P to S
          match tail with
          | [] => .incomplete
          | d :: _ => if 0x50 ≤ d ∧ d ≤ 0x53 then .complete special else .meaningless
        else withAlt (readPlain rest)

/-- The signals in a piece of a terminal's bytes, which follows `pending` ones, and the bytes
that are pending after it; nothing if one of them is undefined. `more` says whether others are
known to follow the piece. -/
def decode (more : Bool) (pending : List UInt8) : List UInt8 → Option (List Signal × List UInt8)
  | [] => some ([], pending)
  | b :: rest =>
    let bytes := pending ++ [b]
    match read (more || !rest.isEmpty) bytes with
    | .incomplete => decode more bytes rest
    | .meaningless => decode more [] rest
    | .undefined => none
    | .complete s => (decode more [] rest).map fun (signals, pending) => (s :: signals, pending)

end Signal

end Chip8
