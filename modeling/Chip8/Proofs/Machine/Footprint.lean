import Chip8.Machine.Execute

/-!
# What an instruction may change

`Completes keys m ins e` lists the ways in which an instruction completes, sorted by the part of
the machine that it changes. Instructions that change the same part in the same way share a way:
the six conditional skips, the seven plain assignments, the five with a flag, and so on. A value
that no invariant looks at (the sum of two registers, say) is left open, everything else is the
machine's own state before.

* The tables `skips`, `assigns`, `assignsFlagged`, `points` and `stores` say which instructions
  share a way.
* An invariant is shown by going through the ways once. That they are all there are is shown
  where instructions are executed, in `Chip8.Proofs.Machine.Execution`.
* `Completes.memory`, `Completes.picture` and `Completes.pc` are the first such facts.
-/

namespace Chip8

namespace Instruction

/-- The conditional skips. -/
def skips : Instruction → Bool
  | skipIfByte _ _ | skipUnlessByte _ _ | skipIfSame _ _ | skipUnlessSame _ _
  | skipIfKey _ | skipUnlessKey _ => true
  | _ => false

/-- The assignments to a register that leave the flag alone. -/
def assigns (r : Register) : Instruction → Bool
  | setByte x _ | addByte x _ | copy x _ | or x _ | and x _ | xor x _ | readDelay x =>
    x.toNat == r.val
  | _ => false

/-- The assignments to a register that set the flag afterwards. -/
def assignsFlagged (r : Register) : Instruction → Bool
  | add x _ | subtract x _ | subtractFrom x _ | shiftRight x | shiftLeft x => x.toNat == r.val
  | _ => false

/-- The assignments to the index register. -/
def points : Instruction → Bool
  | setIndex _ | addIndex _ | pointGlyph _ => true
  | _ => false

/-- How many bytes an instruction stores at the index register. -/
def stores : Instruction → Nat
  | storeDecimal _ => 3
  | save x => x.toNat + 1
  | _ => 0

end Instruction

namespace Machine

/-- The ways in which an instruction completes while `keys` are down, by what it changes. -/
inductive Completes (keys : KeySet) (m : Machine) : Instruction → Effect → Prop where
  /-- A conditional skip changes nothing. -/
  | skip {ins : Instruction} (h : ins.skips = true) (condition : Bool) (asked : List Key) :
      Completes keys m ins { machine := m, flow := .skipIf condition, asked }
  /-- A jump changes nothing. -/
  | jump (nnn : UInt16) : Completes keys m (.jump nnn) { machine := m, flow := .jump nnn }
  /-- A computed jump changes nothing, and its target does not wrap. -/
  | jumpFrom {nnn target : UInt16} (h : target.toNat = nnn.toNat + (m.v .first).toNat) :
      Completes keys m (.jumpFrom nnn) { machine := m, flow := .jump target }
  /-- A return takes an address off the stack. -/
  | ret {addr : UInt16} {stack : ReturnStack} (h : m.stack.pop = .ok (addr, stack)) :
      Completes keys m .ret { machine := { m with stack }, flow := .jump addr }
  /-- A call puts the following instruction's address on it. -/
  | call (nnn : UInt16) {stack : ReturnStack} (h : m.stack.push (m.registers.pc + 2) = .ok stack) :
      Completes keys m (.call nnn) { machine := { m with stack }, flow := .jump nnn }
  /-- A plain assignment sets one register. -/
  | assign {ins : Instruction} {r : Register} (h : ins.assigns r = true) (b : UInt8) :
      Completes keys m ins { machine := m.setV r b }
  /-- An assignment with a flag sets one register and then the flag. -/
  | assignFlagged {ins : Instruction} {r : Register} (h : ins.assignsFlagged r = true)
      (b : UInt8) (on : Bool) : Completes keys m ins { machine := (m.setV r b).setFlag on }
  /-- The index register is set. -/
  | point {ins : Instruction} (h : ins.points = true) (addr : UInt16) :
      Completes keys m ins { machine := m.setIndex addr }
  /-- A random byte is drawn, and masked into one register. -/
  | random {x : UInt8} (kk : UInt8) {r : Register} (h : x.toNat = r.val) :
      Completes keys m (.random x kk)
        { machine := { m with random := m.random.next.2 }.setV r (m.random.next.1 &&& kk) }
  /-- The picture is blanked. -/
  | clear : Completes keys m .clear { machine := { m with frame := .blank, redraw := true } }
  /-- The picture is drawn on, and the flag set. -/
  | draw (x y n : UInt8) (frame : Frame) (erased : Bool) :
      Completes keys m (.draw x y n)
        { machine := { m with frame, redraw := true }.setFlag erased }
  /-- A wait for a key begins, with the keys that are down. -/
  | waitBegins (x : UInt8) (h : m.keyWait = none) :
      Completes keys m (.awaitKey x)
        { machine := { m with keyWait := some keys }, flow := .wait, asked := List.finRange 16,
          waitBegan := true }
  /-- A wait goes on. -/
  | waitGoesOn (x : UInt8) {held rest : KeySet} (h : m.keyWait = some held)
      (hl : look (some held) keys = .goesOn rest) :
      Completes keys m (.awaitKey x)
        { machine := { m with keyWait := some rest }, flow := .wait,
          asked := List.finRange 16 }
  /-- A wait ends, and one register is set to the key. -/
  | waitEnds {x : UInt8} {r : Register} (hx : x.toNat = r.val) {held : KeySet} {key : Key}
      (h : m.keyWait = some held) (hl : look (some held) keys = .ends key) :
      Completes keys m (.awaitKey x)
        { machine := { m with keyWait := none }.setV r key.toByte, asked := List.finRange 16 }
  /-- The delay timer is set. -/
  | setDelay {x : UInt8} {r : Register} (h : x.toNat = r.val) :
      Completes keys m (.setDelay x)
        { machine := { m with timers := { m.timers with delay := m.v r } } }
  /-- The sound timer is set. -/
  | setSound {x : UInt8} {r : Register} (h : x.toNat = r.val) :
      Completes keys m (.setSound x)
        { machine := { m with timers := { m.timers with sound := m.v r } } }
  /-- Bytes are written at the index register. -/
  | store {ins : Instruction} {data : List UInt8} (h : ins.stores = data.length) (pos : 0 < ins.stores)
      {memory : Memory} (hw : m.memory.write m.registers.index.toNat data = .ok memory) :
      Completes keys m ins { machine := { m with memory } }
  /-- Registers are loaded with the bytes read at the index register. -/
  | restore {x : UInt8} {data : List UInt8}
      (h : m.memory.read m.registers.index.toNat (x.toNat + 1) = .ok data) :
      Completes keys m (.restore x)
        { machine :=
          { m with registers := { m.registers with v := overwrite m.registers.v 0 data } } }

namespace Completes

variable {keys : KeySet} {m : Machine} {ins : Instruction} {e : Effect}

/-- Memory stays as it is, or is written at the index register. -/
theorem memory (h : Completes keys m ins e) :
    e.machine.memory = m.memory ∨
      ∃ data, m.memory.write m.registers.index.toNat data = .ok e.machine.memory := by
  cases h with
  | store _ _ hw => exact .inr ⟨_, hw⟩
  | _ => exact .inl rfl

/-- The picture stays as it is, or it is due to be shown. -/
theorem picture (h : Completes keys m ins e) :
    e.machine.redraw = true ∨
      (e.machine.frame = m.frame ∧ e.machine.redraw = m.redraw) := by
  cases h with
  | clear => exact .inl rfl
  | draw => exact .inl rfl
  | _ => exact .inr ⟨rfl, rfl⟩

/-- An instruction that waits for a key leaves everything but the wait as it is. -/
theorem machine_of_wait (h : Completes keys m ins e) (hw : e.flow = .wait) :
    ∃ held, e.machine = { m with keyWait := some held } := by
  cases h with
  | waitBegins => exact ⟨_, rfl⟩
  | waitGoesOn => exact ⟨_, rfl⟩
  | skip _ condition =>
    cases condition
    · cases hw
    · cases hw
  | _ => cases hw

/-- Nothing but a wait for a key waits. -/
theorem awaits_of_wait (h : Completes keys m ins e) (hw : e.flow = .wait) :
    ∃ x, ins = .awaitKey x := by
  cases h with
  | waitBegins x => exact ⟨x, rfl⟩
  | waitGoesOn x => exact ⟨x, rfl⟩
  | skip _ condition =>
    cases condition
    · cases hw
    · cases hw
  | _ => cases hw

/-- Nothing else touches what a wait remembers. -/
theorem keyWait_eq (h : Completes keys m ins e) (hne : ∀ x, ins ≠ .awaitKey x) :
    e.machine.keyWait = m.keyWait := by
  cases h with
  | waitBegins x => exact absurd rfl (hne x)
  | waitGoesOn x => exact absurd rfl (hne x)
  | @waitEnds x => exact absurd rfl (hne x)
  | _ => rfl

/-- A wait that ends forgets what it remembered. -/
theorem keyWait_of_awaitKey {x : UInt8} (h : Completes keys m (.awaitKey x) e)
    (hw : e.flow ≠ .wait) : e.machine.keyWait = none := by
  cases h with
  | waitBegins => exact absurd rfl hw
  | waitGoesOn => exact absurd rfl hw
  | waitEnds => rfl
  | skip h | assign h | assignFlagged h | point h => exact absurd h Bool.false_ne_true
  | store _ pos => exact absurd pos (Nat.lt_irrefl 0)

/-- A return goes on at the address that it takes off the stack. -/
theorem flow_of_ret (h : Completes keys m .ret e) :
    ∃ addr, e.flow = .jump addr ∧ m.stack.toList = addr :: e.machine.stack.toList := by
  cases h with
  | ret hpop => exact ⟨_, rfl, ReturnStack.toList_of_pop hpop⟩
  | skip h | assign h | assignFlagged h | point h => exact absurd h Bool.false_ne_true
  | store _ pos => exact absurd pos (Nat.lt_irrefl 0)

/-- The return stack stays as it is, or a call puts the following instruction's address on it, or a
return goes on at the address that it takes off. -/
theorem stack (h : Completes keys m ins e) :
    e.machine.stack = m.stack ∨
      (∃ nnn, ins = .call nnn ∧ e.flow = .jump nnn ∧
        m.stack.push (m.registers.pc + 2) = .ok e.machine.stack) ∨
      ∃ addr, ins = .ret ∧ e.flow = .jump addr ∧ m.stack.pop = .ok (addr, e.machine.stack) := by
  cases h with
  | call nnn hpush => exact .inr (.inl ⟨nnn, rfl, rfl, hpush⟩)
  | ret hpop => exact .inr (.inr ⟨_, rfl, rfl, hpop⟩)
  | _ => exact .inl rfl

/-- Nothing but a random instruction draws a random byte. -/
theorem random_eq (h : Completes keys m ins e) (hne : ∀ x kk, ins ≠ .random x kk) :
    e.machine.random = m.random := by
  cases h with
  | @random x kk => exact absurd rfl (hne x kk)
  | _ => rfl

/-- A random instruction draws the next byte and masks it into its register. -/
theorem machine_of_random {x kk : UInt8} (h : Completes keys m (.random x kk) e) :
    ∃ r : Register, x.toNat = r.val ∧
      e.machine = { m with random := m.random.next.2 }.setV r (m.random.next.1 &&& kk) := by
  cases h with
  | random kk hx => exact ⟨_, hx, rfl⟩
  | skip h | assign h | assignFlagged h | point h => exact absurd h Bool.false_ne_true
  | store _ pos => exact absurd pos (Nat.lt_irrefl 0)

/-- Registers are restored from the bytes at the index register, and nothing else changes. -/
theorem machine_of_restore {x : UInt8} (h : Completes keys m (.restore x) e) :
    ∃ data, m.memory.read m.registers.index.toNat (x.toNat + 1) = .ok data ∧
      e.machine =
        { m with registers := { m.registers with v := overwrite m.registers.v 0 data } } := by
  cases h with
  | restore hread => exact ⟨_, hread, rfl⟩
  | skip h | assign h | assignFlagged h | point h => exact absurd h Bool.false_ne_true
  | store _ pos => exact absurd pos (Nat.lt_irrefl 0)

end Completes

end Machine

end Chip8
