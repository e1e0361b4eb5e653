import Chip8.Machine.Execute

/-!
# Executing instructions in place

`Machine.executeM` is the execution of an instruction as it happens: registers are read and
written, the return stack, memory and the picture are changed, each step on the state that the
step before has left. Where a step stops, whatever has been changed until then stays changed.
`Completion` is what an instruction that gets to its end tells besides the state.

`Machine.execute` tells the outcome at once. That it is the outcome of these steps, and that an
instruction which stops has not changed anything yet, is `run_executeM`, which needs the operands
to be in range: an instruction with others could stop in the middle.
-/

namespace Chip8

/-- What a completed instruction tells besides the state. -/
structure Completion where
  /-- Where the program goes on. -/
  flow : Flow := .next
  /-- The keys that were looked at, in order. -/
  asked : List Key := []
  /-- A wait for a key started. -/
  waitBegan : Bool := false

/-- The effect of an instruction that leaves `machine`. -/
def Completion.effect (c : Completion) (machine : Machine) : Effect where
  machine := machine
  flow := c.flow
  asked := c.asked
  waitBegan := c.waitBegan

/-- What an effect tells besides the state. -/
def Effect.completion (e : Effect) : Completion where
  flow := e.flow
  asked := e.asked
  waitBegan := e.waitBegan

namespace Machine

open InPlace

/-- What the register holds that an operand names. -/
def readV (x : UInt8) : EStateM Stop Machine UInt8 :=
  inspect fun m => (register x).map m.v

/-- A byte goes to the register that an operand names. -/
def writeV (x b : UInt8) : EStateM Stop Machine Unit := do
  let r ← inspect fun _ => register x
  modify (·.setV r b)

/-- A result goes to a register and then its flag to VF, so the flag wins where the register is
VF too. -/
def writeFlagged (x : UInt8) (result : UInt8 × Bool) : EStateM Stop Machine Unit := do
  writeV x result.1
  modify (·.setFlag result.2)

/-- An operation on two registers whose result goes to the first, without a flag. -/
def combineM (x y : UInt8) (op : UInt8 → UInt8 → UInt8) : EStateM Stop Machine Completion := do
  let a ← readV x
  let b ← readV y
  writeV x (op a b)
  return {}

/-- An operation on two registers whose result goes to the first and whose flag goes to VF. -/
def combineFlaggedM (x y : UInt8) (op : UInt8 → UInt8 → UInt8 × Bool) :
    EStateM Stop Machine Completion := do
  let a ← readV x
  let b ← readV y
  writeFlagged x (op a b)
  return {}

/-- An operation on the return stack. -/
def onStack {α : Type} (act : EStateM Fault ReturnStack α) : EStateM Stop Machine α :=
  within stack (fun m stack => { m with stack }) act |>.adaptExcept .fault

/-- Bytes are stored at the index register. -/
def storeM (data : List UInt8) : EStateM Stop Machine Completion := do
  let addr := (← get).registers.index.toNat
  within memory (fun m memory => { m with memory }) (Memory.writeM addr data)
  return {}

/-- The `len` bytes at the index register. -/
def readM (len : Nat) : EStateM Stop Machine (List UInt8) :=
  inspect fun m => Stop.ofFault (m.memory.read m.registers.index.toNat len)

/-- A sprite goes over the picture, pixel by pixel. One with a pixel past the range of coordinates
stops there, with those before it in the picture already. -/
def drawM (col row : Nat) (rows : List UInt8) : EStateM Stop Machine Bool := do
  let drawing := (← get).frame.drawSprite col row rows
  modify fun m => { m with frame := drawing.frame }
  if drawing.overflowed then throw (.defect .coordinateOverflow)
  else return drawing.erased

/-- The key that the value of a register names is tested. -/
def testKeyM (x : UInt8) (test : Key → Bool) : EStateM Stop Machine Completion := do
  let value ← readV x
  let key ← inspect fun _ => keyOf value
  return { flow := .skipIf (test key), asked := [key] }

/-- The execution of an instruction while `keys` are down. -/
def executeM (keys : KeySet) (ins : Instruction) : EStateM Stop Machine Completion :=
  match ins with
  | .clear => do
    modify fun m => { m with frame := .blank }
    modify fun m => { m with redraw := true }
    return {}
  | .ret => do
    let addr ← onStack ReturnStack.popM
    return { flow := .jump addr }
  | .jump nnn => return { flow := .jump nnn }
  | .call nnn => do
    let pc := (← get).registers.pc
    onStack (ReturnStack.pushM (pc + 2))
    return { flow := .jump nnn }
  | .skipIfByte x kk => do
    let a ← readV x
    return { flow := .skipIf (a == kk) }
  | .skipUnlessByte x kk => do
    let a ← readV x
    return { flow := .skipIf (a != kk) }
  | .skipIfSame x y => do
    let a ← readV x
    let b ← readV y
    return { flow := .skipIf (a == b) }
  | .skipUnlessSame x y => do
    let a ← readV x
    let b ← readV y
    return { flow := .skipIf (a != b) }
  | .setByte x kk => do
    writeV x kk
    return {}
  | .addByte x kk => do
    let a ← readV x
    writeV x (a + kk)
    return {}
  | .copy x y => combineM x y fun _ b => b
  | .or x y => combineM x y (· ||| ·)
  | .and x y => combineM x y (· &&& ·)
  | .xor x y => combineM x y (· ^^^ ·)
  | .add x y => combineFlaggedM x y addCarry
  | .subtract x y => combineFlaggedM x y subtractNoBorrow
  | .subtractFrom x y => combineFlaggedM x y fun a b => subtractNoBorrow b a
  | .shiftRight x => combineFlaggedM x x fun a _ => halve a
  | .shiftLeft x => combineFlaggedM x x fun a _ => double a
  | .setIndex nnn => do
    modify (·.setIndex nnn)
    return {}
  | .jumpFrom nnn => do
    let offset := (← get).v Register.first
    if nnn.toNat + offset.toNat < 0x10000 then
      return { flow := .jump (nnn + offset.toUInt16) }
    else throw (.defect .addressOverflow)
  | .random x kk => do
    -- the byte is drawn before the register is looked for
    let (byte, random) := (← get).random.next
    modify fun m => { m with random }
    writeV x (byte &&& kk)
    return {}
  | .draw x y n => do
    let col ← readV x
    let row ← readV y
    let rows ← readM n.toNat
    let erased ← drawM col.toNat row.toNat rows
    modify (·.setFlag erased)
    modify fun m => { m with redraw := true }
    return {}
  | .skipIfKey x => testKeyM x (· ∈ keys)
  | .skipUnlessKey x => testKeyM x (· ∉ keys)
  | .readDelay x => do
    let delay := (← get).timers.delay
    writeV x delay
    return {}
  | .awaitKey x => do
    -- the wait is updated before the register is looked for
    let asked := List.finRange 16
    match look (← get).keyWait keys with
    | .begins held =>
      modify fun m => { m with keyWait := some held }
      return { flow := .wait, asked, waitBegan := true }
    | .goesOn held =>
      modify fun m => { m with keyWait := some held }
      return { flow := .wait, asked }
    | .ends key =>
      modify fun m => { m with keyWait := none }
      writeV x key.toByte
      return { asked }
  | .setDelay x => do
    let a ← readV x
    modify fun m => { m with timers := { m.timers with delay := a } }
    return {}
  | .setSound x => do
    let a ← readV x
    modify fun m => { m with timers := { m.timers with sound := a } }
    return {}
  | .addIndex x => do
    let a ← readV x
    modify fun m => m.setIndex (m.registers.index + a.toUInt16)
    return {}
  | .pointGlyph x => do
    let a ← readV x
    let addr ← inspect fun _ => Stop.ofDefect .addressOverflow (Glyphs.address? a)
    modify (·.setIndex addr)
    return {}
  | .storeDecimal x => do
    let a ← readV x
    storeM (decimalDigits a)
  | .save x => do
    let bytes ← inspect fun m => (register x).map m.registers.upTo
    storeM bytes
  | .restore x => do
    -- the bytes are read before the registers are looked for
    let bytes ← readM (x.toNat + 1)
    let registers ← inspect fun m => do
      let r ← register x
      Stop.ofDefect .lengthMismatch (m.registers.setUpTo? r bytes)
    modify fun m => { m with registers }
    return {}

end Machine

end Chip8
