import Chip8.Proofs.Instruction.Operands
import Chip8.Proofs.Machine.Faults
import Chip8.Proofs.Machine.Footprint

/-!
# What executing an instruction comes to

An instruction whose operands are in range either raises the fault that `faultOf` foretells, or
completes in one of the ways of `Completes`. It never meets a defect.

* `InBounds m ins` lists the bounds that the machine relies on without looking: registers
  exist, computed addresses and screen coordinates fit their types, the bytes and slots that are
  looked up exist, copied stretches are as long as the place they go to.
* `inBounds_of_encodable` derives all of them from the range of the operands, and so from the
  room that a word has.
* `execute_of_inBounds` is the one place where all instructions are gone through; the rest of
  the theory uses its three corollaries `execute_eq_fault_iff`, `completes_of_execute` and
  `execute_ne_defect`.
* `inBounds_of_fetch`: whatever is fetched is within its bounds.
-/

namespace Chip8.Machine

/-! ## Bounds -/

/-- The bounds on which the execution of an instruction relies. -/
structure InBounds (m : Machine) (ins : Instruction) : Prop where
  /-- Every register named is one of the sixteen, and every count is below sixteen. -/
  registers : ∀ x ∈ ins.nibbles, x < 16
  /-- The target of a computed jump fits in sixteen bits. -/
  target : ∀ nnn, ins = .jumpFrom nnn → nnn.toNat + (m.v .first).toNat < 0x10000
  /-- So does the address of a glyph. -/
  glyph : ∀ x, ins = .pointGlyph x → Glyphs.start + Glyphs.rows * (m.operand x).toNat < 0x10000
  /-- No pixel of a sprite has a column past the range of coordinates. -/
  columns : ∀ x y n, ins = .draw x y n → (m.operand x).toNat + 8 ≤ coordinateLimit
  /-- Nor has it a row past that range. -/
  rows : ∀ x y n, ins = .draw x y n → (m.operand y).toNat + n.toNat ≤ coordinateLimit
  /-- Every pixel of a sprite has its byte in the frame. -/
  pixels : ∀ x y n, ins = .draw x y n → ∀ col row,
    Frame.pixelIndex ((m.operand x).toNat + col) ((m.operand y).toNat + row) / 8 < 256
  /-- Bytes that are read lie in memory, and are as many as were asked for. -/
  read : ∀ len data, m.memory.read m.registers.index.toNat len = .ok data →
    m.registers.index.toNat + len ≤ 4096 ∧ data.length = len
  /-- A place that is handed out for bytes lies in memory, and is as long as they are. -/
  written : ∀ len place, m.memory.writable m.registers.index.toNat len = .ok place →
    m.registers.index.toNat + len ≤ 4096 ∧ place.length = len
  /-- A return address is put into one of the sixteen slots. -/
  pushed : ∀ addr stack, m.stack.push addr = .ok stack → m.stack.depth < 16
  /-- It is taken out of one of them. -/
  popped : ∀ addr stack, m.stack.pop = .ok (addr, stack) →
    0 < m.stack.depth ∧ m.stack.depth ≤ 16

/-- Operands in range keep every bound. -/
theorem inBounds_of_encodable (m : Machine) {ins : Instruction} (h : ins.Encodable) :
    m.InBounds ins where
  registers := h.1
  target := by
    rintro nnn rfl
    have ha : nnn < 4096 := h.2 nnn rfl
    rw [UInt16.lt_iff_toNat_lt] at ha
    have hv := (m.v .first).toNat_lt
    have h4 : (4096 : UInt16).toNat = 4096 := rfl
    omega
  glyph := fun x _ => Glyphs.start_add_lt _
  columns := by
    intro x y n _
    have hv := (m.operand x).toNat_lt
    unfold coordinateLimit
    omega
  rows := by
    intro x y n _
    have hv := (m.operand y).toNat_lt
    have hn := n.toNat_lt
    unfold coordinateLimit
    omega
  pixels := by
    intro x y n _ col row
    have hp := Frame.pixelIndex_lt ((m.operand x).toNat + col) ((m.operand y).toNat + row)
    omega
  read := fun _ _ hr => ⟨Memory.le_of_read hr, Memory.length_of_read hr⟩
  written := fun _ _ hw => ⟨Memory.le_of_writable hw, Memory.length_of_writable hw⟩
  pushed := fun _ _ hp => ReturnStack.lt_of_push hp
  popped := fun _ _ hp => ⟨ReturnStack.pos_of_pop hp, m.stack.depth_le⟩

/-! ## One instruction -/

variable {keys : KeySet} {m : Machine} {ins : Instruction} {x y : UInt8}

/-- An operand of an instruction within its bounds names a register. -/
theorem InBounds.exists_register (h : m.InBounds ins) (hx : x ∈ ins.nibbles) :
    ∃ r : Register, register x = .ok r ∧ x.toNat = r.val ∧ m.operand x = m.v r := by
  have hlt := h.registers x hx
  exact ⟨_, register_eq_ok hlt, rfl, operand_eq m (UInt8.lt_iff_toNat_lt.1 hlt)⟩

/-- What an instruction may come to: the fault foretold, or one of the ways to complete. -/
def ComesTo (keys : KeySet) (m : Machine) (ins : Instruction) (result : Except Stop Effect) :
    Prop :=
  match m.faultOf ins with
  | some fault => result = .error (.fault fault)
  | none => ∃ e, result = .ok e ∧ Completes keys m ins e

/-- Where no fault is foretold, an instruction comes to a way to complete. -/
theorem ComesTo.of_completes {result : Except Stop Effect} {e : Effect}
    (hf : m.faultOf ins = none) (hr : result = .ok e) (h : Completes keys m ins e) :
    ComesTo keys m ins result := by
  rw [ComesTo, hf]
  exact ⟨e, hr, h⟩

/-- Where one is, it comes to that fault. -/
theorem ComesTo.of_fault {result : Except Stop Effect} {fault : Fault}
    (hf : m.faultOf ins = some fault) (hr : result = .error (.fault fault)) :
    ComesTo keys m ins result := by
  rw [ComesTo, hf]
  exact hr

/-! ## Instructions of a family -/

/-- An operation on two registers that exist sets the first. -/
theorem combine_eq_ok {r q : Register} (hx : register x = .ok r) (hy : register y = .ok q)
    (op : UInt8 → UInt8 → UInt8) :
    m.combine x y op = .ok { machine := m.setV r (op (m.v r) (m.v q)) } := by
  rw [combine, hx, hy]
  rfl

/-- One with a flag sets the first, and then VF. -/
theorem combineFlagged_eq_ok {r q : Register} (hx : register x = .ok r)
    (hy : register y = .ok q) (op : UInt8 → UInt8 → UInt8 × Bool) :
    m.combineFlagged x y op =
      .ok { machine := (m.setV r (op (m.v r) (m.v q)).1).setFlag (op (m.v r) (m.v q)).2 } := by
  rw [combineFlagged, hx, hy]
  rfl

/-- The index register is pointed at a glyph if the glyph's address does not wrap. -/
theorem execute_pointGlyph {r : Register} (hr : register x = .ok r)
    (hlt : Glyphs.start + Glyphs.rows * (m.v r).toNat < 0x10000) :
    m.execute keys (.pointGlyph x) =
      .ok { machine := m.setIndex (Glyphs.address (m.v r)) } := by
  rw [execute, hr]
  show (Stop.ofDefect _ (Glyphs.address? (m.v r)) >>= _) = _
  rw [Glyphs.address?_eq_some hlt]
  rfl

/-- Bytes are stored exactly if they may be written. -/
theorem store_eq (m : Machine) (data : List UInt8) :
    m.store data =
      match m.storeFault? data.length with
      | some fault => .error (.fault fault)
      | none => .ok { machine :=
          { m with memory := ⟨overwrite m.memory.bytes m.registers.index.toNat data⟩ } } := by
  cases hf : m.storeFault? data.length with
  | some fault =>
    simp only [store, Memory.writable_eq_error _ hf]
    rfl
  | none =>
    obtain ⟨place, hp⟩ := Memory.exists_writable m.memory hf
    have hl : place.length = data.length := Memory.length_of_writable hp
    simp only [store, hp, Stop.ofFault_ok, bind, Except.bind, if_pos hl]
    rfl

/-- A store that completes has written its bytes at the index register, and changed nothing else. -/
theorem write_of_store {data : List UInt8} {e : Effect} (h : m.store data = .ok e) :
    m.memory.write m.registers.index.toNat data = .ok e.machine.memory ∧
      e.machine.registers = m.registers := by
  rw [store_eq] at h
  cases hf : m.storeFault? data.length with
  | some fault =>
    rw [hf] at h
    cases h
  | none =>
    rw [hf] at h
    cases h
    exact ⟨Memory.write_eq_ok _ hf, rfl⟩

/-- V0 to Vx are stored in order. -/
theorem execute_save {r : Register} (hr : register x = .ok r) :
    m.execute keys (.save x) = m.store (m.registers.upTo r) := by
  rw [execute, hr]
  rfl

/-- A store of as many bytes as the instruction tells comes to a write at the index register. -/
theorem comesTo_store (data : List UInt8) (hn : ins.stores = data.length) (pos : 0 < ins.stores)
    (hf : m.faultOf ins = m.storeFault? data.length) :
    ComesTo keys m ins (m.store data) := by
  rw [store_eq]
  cases hs : m.storeFault? data.length with
  | some fault => exact .of_fault (hf.trans hs) rfl
  | none => exact .of_completes (hf.trans hs) rfl (.store hn pos (Memory.write_eq_ok _ hs))

/-- A key test comes to a skip if the value names a key. -/
theorem comesTo_keyTest {value : UInt8} (hs : ins.skips = true)
    (hf : m.faultOf ins = keyFault? value) (test : Key → Bool) :
    ComesTo keys m ins (do
      let key ← keyOf value
      return { machine := m, flow := .skipIf (test key), asked := [key] }) := by
  unfold keyFault? at hf
  split at hf
  · rename_i h
    rw [keyOf_eq_error h]
    exact .of_fault hf rfl
  · rename_i h
    rw [keyOf_eq_ok (Nat.lt_of_not_le h)]
    exact .of_completes hf rfl (.skip hs _ _)

/-- A sprite that is drawn to its end changes the picture and the flag. -/
theorem execute_draw {n : UInt8} {r q : Register} {rows : List UInt8} {drawing : Drawing}
    (hr : register x = .ok r) (hq : register y = .ok q)
    (hread : m.memory.read m.registers.index.toNat n.toNat = .ok rows)
    (hdrawing : m.frame.drawSprite (m.v r).toNat (m.v q).toNat rows = drawing)
    (hdone : drawing.overflowed = false) :
    m.execute keys (.draw x y n) = .ok { machine :=
      { m with frame := drawing.frame, redraw := true }.setFlag drawing.erased } := by
  subst hdrawing
  rw [execute, hr, hq, hread]
  exact if_neg (by rw [hdone]; exact Bool.false_ne_true)

/-- A sprite is drawn unless its bytes run past the end of memory. -/
theorem comesTo_draw {n : UInt8} {r q : Register} (hr : register x = .ok r)
    (hq : register y = .ok q) (hcols : (m.v r).toNat + 8 ≤ coordinateLimit)
    (hrows : (m.v q).toNat + n.toNat ≤ coordinateLimit) :
    ComesTo keys m (.draw x y n) (m.execute keys (.draw x y n)) := by
  by_cases hlen : 4096 < m.registers.index.toNat + n.toNat
  · refine .of_fault (if_pos hlen) ?_
    rw [execute, hr, hq, Memory.read_eq_error _ hlen]
    rfl
  · obtain ⟨rows, hread⟩ : ∃ rows, m.memory.read m.registers.index.toNat n.toNat = .ok rows :=
      ⟨_, Memory.read_eq_ok m.memory (Nat.le_of_not_lt hlen)⟩
    have hdone : (m.frame.drawSprite (m.v r).toNat (m.v q).toNat rows).overflowed = false :=
      Drawing.overflowed_sprite rfl hcols (by rwa [Memory.length_of_read hread])
    exact .of_completes (if_neg hlen) (execute_draw hr hq hread rfl hdone) (.draw x y n _ _)

/-- What a look at the keypad does: the wait remembers the keys held, or it ends and a register
takes the key. -/
def lookEffect (m : Machine) (r : Register) : Look → Effect
  | .begins held =>
    { machine := { m with keyWait := some held }, flow := .wait, asked := List.finRange 16,
      waitBegan := true }
  | .goesOn held =>
    { machine := { m with keyWait := some held }, flow := .wait, asked := List.finRange 16 }
  | .ends key =>
    { machine := { m with keyWait := none }.setV r key.toByte, asked := List.finRange 16 }

/-- A wait for a key is one look at the keypad. -/
theorem execute_awaitKey {r : Register} (hr : register x = .ok r) :
    m.execute keys (.awaitKey x) = .ok (m.lookEffect r (look m.keyWait keys)) := by
  simp only [execute, hr]
  cases look m.keyWait keys with
  | begins held => rfl
  | goesOn held => rfl
  | ends key => rfl

/-- A look at the keypad comes to a wait that begins, goes on or ends. -/
theorem comesTo_awaitKey {r : Register} (hx : x.toNat = r.val) (hr : register x = .ok r) :
    ComesTo keys m (.awaitKey x) (m.execute keys (.awaitKey x)) := by
  refine .of_completes rfl (execute_awaitKey hr) ?_
  cases hk : m.keyWait with
  | none => exact .waitBegins x hk
  | some held =>
    cases hl : look (some held) keys with
    | begins _ => exact absurd hl (look_some_ne_begins _ _ _)
    | goesOn rest => exact .waitGoesOn x hk hl
    | ends key => exact .waitEnds hx hk hl

/-! ## Every instruction -/

/-- **What an instruction within its bounds comes to**: the fault that `faultOf` foretells, or
else one of the ways to complete. -/
theorem execute_of_inBounds (keys : KeySet) (h : m.InBounds ins) :
    ComesTo keys m ins (m.execute keys ins) := by
  cases ins with
  | clear => exact .of_completes rfl rfl .clear
  | ret =>
    by_cases hd : m.stack.depth = 0
    · refine .of_fault (if_pos hd) ?_
      rw [execute, m.stack.pop_eq_error hd]
      rfl
    · obtain ⟨addr, stack, hp⟩ := m.stack.exists_pop hd
      refine .of_completes (if_neg hd) ?_ (.ret hp)
      rw [execute, hp]
      rfl
  | jump nnn => exact .of_completes rfl rfl (.jump nnn)
  | call nnn =>
    by_cases hd : m.stack.depth = 16
    · refine .of_fault (if_pos hd) ?_
      rw [execute, m.stack.push_eq_error _ hd]
      rfl
    · obtain ⟨stack, hp⟩ := m.stack.exists_push (m.registers.pc + 2) hd
      refine .of_completes (if_neg hd) ?_ (.call nnn hp)
      rw [execute, hp]
      rfl
  | skipIfByte x kk | skipUnlessByte x kk =>
    obtain ⟨r, hr, -, -⟩ := h.exists_register (x := x) List.mem_cons_self
    rw [execute, hr]
    exact .of_completes rfl rfl (.skip rfl _ _)
  | skipIfSame x y | skipUnlessSame x y =>
    obtain ⟨r, hr, -, -⟩ := h.exists_register (x := x) List.mem_cons_self
    obtain ⟨q, hq, -, -⟩ := h.exists_register (x := y) (List.mem_cons_of_mem _ List.mem_cons_self)
    rw [execute, hr, hq]
    exact .of_completes rfl rfl (.skip rfl _ _)
  | setByte x kk | addByte x kk =>
    obtain ⟨r, hr, hx, -⟩ := h.exists_register (x := x) List.mem_cons_self
    rw [execute, hr]
    exact .of_completes rfl rfl (.assign (r := r) (by simp [Instruction.assigns, hx]) _)
  | copy x y | or x y | and x y | xor x y =>
    obtain ⟨r, hr, hx, -⟩ := h.exists_register (x := x) List.mem_cons_self
    obtain ⟨q, hq, -, -⟩ := h.exists_register (x := y) (List.mem_cons_of_mem _ List.mem_cons_self)
    rw [execute, combine_eq_ok hr hq]
    exact .of_completes rfl rfl (.assign (r := r) (by simp [Instruction.assigns, hx]) _)
  | add x y | subtract x y | subtractFrom x y =>
    obtain ⟨r, hr, hx, -⟩ := h.exists_register (x := x) List.mem_cons_self
    obtain ⟨q, hq, -, -⟩ := h.exists_register (x := y) (List.mem_cons_of_mem _ List.mem_cons_self)
    rw [execute, combineFlagged_eq_ok hr hq]
    exact .of_completes rfl rfl
      (.assignFlagged (r := r) (by simp [Instruction.assignsFlagged, hx]) _ _)
  | shiftRight x | shiftLeft x =>
    obtain ⟨r, hr, hx, -⟩ := h.exists_register (x := x) List.mem_cons_self
    rw [execute, combineFlagged_eq_ok hr hr]
    exact .of_completes rfl rfl
      (.assignFlagged (r := r) (by simp [Instruction.assignsFlagged, hx]) _ _)
  | setIndex nnn => exact .of_completes rfl rfl (.point rfl nnn)
  | jumpFrom nnn =>
    have hlt := h.target nnn rfl
    refine .of_completes rfl (if_pos hlt) (.jumpFrom ?_)
    rw [UInt16.toNat_add]
    exact Nat.mod_eq_of_lt hlt
  | random x kk =>
    obtain ⟨r, hr, hx, -⟩ := h.exists_register (x := x) List.mem_cons_self
    rw [execute, hr]
    exact .of_completes rfl rfl (.random kk hx)
  | draw x y n =>
    obtain ⟨r, hr, -, hv⟩ := h.exists_register (x := x) List.mem_cons_self
    obtain ⟨q, hq, -, hw⟩ := h.exists_register (x := y) (List.mem_cons_of_mem _ List.mem_cons_self)
    exact comesTo_draw hr hq (hv ▸ h.columns x y n rfl) (hw ▸ h.rows x y n rfl)
  | skipIfKey x =>
    obtain ⟨r, hr, -, hv⟩ := h.exists_register (x := x) List.mem_cons_self
    have hf : m.faultOf (.skipIfKey x) = keyFault? (m.v r) := congrArg keyFault? hv
    rw [execute, hr]
    exact comesTo_keyTest rfl hf _
  | skipUnlessKey x =>
    obtain ⟨r, hr, -, hv⟩ := h.exists_register (x := x) List.mem_cons_self
    have hf : m.faultOf (.skipUnlessKey x) = keyFault? (m.v r) := congrArg keyFault? hv
    rw [execute, hr]
    exact comesTo_keyTest rfl hf _
  | readDelay x =>
    obtain ⟨r, hr, hx, -⟩ := h.exists_register (x := x) List.mem_cons_self
    rw [execute, hr]
    exact .of_completes rfl rfl (.assign (r := r) (by simp [Instruction.assigns, hx]) _)
  | awaitKey x =>
    obtain ⟨r, hr, hx, -⟩ := h.exists_register (x := x) List.mem_cons_self
    exact comesTo_awaitKey hx hr
  | setDelay x =>
    obtain ⟨r, hr, hx, -⟩ := h.exists_register (x := x) List.mem_cons_self
    rw [execute, hr]
    exact .of_completes rfl rfl (.setDelay hx)
  | setSound x =>
    obtain ⟨r, hr, hx, -⟩ := h.exists_register (x := x) List.mem_cons_self
    rw [execute, hr]
    exact .of_completes rfl rfl (.setSound hx)
  | addIndex x =>
    obtain ⟨r, hr, -, -⟩ := h.exists_register (x := x) List.mem_cons_self
    rw [execute, hr]
    exact .of_completes rfl rfl (.point rfl _)
  | pointGlyph x =>
    obtain ⟨r, hr, -, hv⟩ := h.exists_register (x := x) List.mem_cons_self
    rw [execute_pointGlyph hr (hv ▸ h.glyph x rfl)]
    exact .of_completes rfl rfl (.point rfl _)
  | storeDecimal x =>
    obtain ⟨r, hr, -, -⟩ := h.exists_register (x := x) List.mem_cons_self
    rw [execute, hr]
    exact comesTo_store (decimalDigits (m.v r)) rfl (Nat.succ_pos 2) rfl
  | save x =>
    obtain ⟨r, hr, hx, -⟩ := h.exists_register (x := x) List.mem_cons_self
    have hlen : (m.registers.upTo r).length = x.toNat + 1 := by rw [Registers.length_upTo, hx]
    rw [execute_save hr]
    exact comesTo_store (m.registers.upTo r) hlen.symm (Nat.succ_pos _)
      (congrArg m.storeFault? hlen.symm)
  | restore x =>
    obtain ⟨r, hr, hx, -⟩ := h.exists_register (x := x) List.mem_cons_self
    by_cases hlen : 4096 < m.registers.index.toNat + (x.toNat + 1)
    · refine .of_fault (if_pos hlen) ?_
      rw [hx] at hlen
      rw [execute, hr]
      show (Stop.ofFault (m.memory.read _ (r.val + 1)) >>= _) = _
      rw [Memory.read_eq_error _ hlen]
      rfl
    · have hread := Memory.read_eq_ok m.memory (Nat.le_of_not_lt hlen)
      have hdata := (h.read _ _ hread).2
      refine .of_completes (if_neg hlen) ?_ (.restore hread)
      rw [execute, hr]
      show (Stop.ofFault (m.memory.read _ (r.val + 1)) >>= _) = _
      rw [← hx, hread]
      show (Stop.ofDefect _ (m.registers.setUpTo? r _) >>= _) = _
      rw [Registers.setUpTo?_eq_some _ _ (hdata.trans (congrArg (· + 1) hx))]
      rfl

/-- An instruction raises a fault exactly if `faultOf` foretells it. -/
theorem execute_eq_fault_iff (keys : KeySet) (h : m.InBounds ins) {fault : Fault} :
    m.execute keys ins = .error (.fault fault) ↔ m.faultOf ins = some fault := by
  have hc := execute_of_inBounds keys h
  unfold ComesTo at hc
  split at hc
  · rename_i f hf
    rw [hc, hf, Except.error.injEq, Stop.fault.injEq, Option.some.injEq]
  · rename_i hf
    obtain ⟨e, hx, -⟩ := hc
    rw [hx, hf]
    exact iff_of_false (fun he => nomatch he) (fun he => nomatch he)

/-- An instruction that completes does so in one of the ways listed. -/
theorem completes_of_execute (h : m.InBounds ins) {e : Effect}
    (hx : m.execute keys ins = .ok e) : Completes keys m ins e := by
  have hc := execute_of_inBounds keys h
  unfold ComesTo at hc
  split at hc
  · rw [hx] at hc
    cases hc
  · obtain ⟨e', hx', hc⟩ := hc
    rw [hx, Except.ok.injEq] at hx'
    rwa [hx']

/-- No instruction within its bounds meets a defect. -/
theorem execute_ne_defect (h : m.InBounds ins) (d : Defect) :
    m.execute keys ins ≠ .error (.defect d) := by
  have hc := execute_of_inBounds keys h
  intro hx
  unfold ComesTo at hc
  split at hc
  · rw [hx] at hc
    cases hc
  · obtain ⟨e, hx', -⟩ := hc
    rw [hx] at hx'
    cases hx'

/-! ## The instruction at the program counter -/

/-- The address of what is fetched is even, and its word lies in the program area. -/
theorem pc_of_fetch (h : m.fetch = .ok ins) :
    0x200 ≤ m.registers.pc.toNat ∧ m.registers.pc.toNat % 2 = 0 ∧
      m.registers.pc.toNat + 1 < 4096 := by
  simp only [fetch] at h
  split at h
  · cases h
  · omega

/-- The program counter is refused for its place only. -/
theorem fetch_eq_badProgramCounter_iff :
    m.fetch = .error .badProgramCounter ↔
      m.registers.pc.toNat < 0x200 ∨ m.registers.pc.toNat % 2 = 1 ∨
        4096 ≤ m.registers.pc.toNat + 1 := by
  refine ⟨fun h => ?_, fetch_eq_error m⟩
  refine Decidable.of_not_not fun hplace => ?_
  rw [fetch_eq_decode m (by omega) (by omega) (by omega)] at h
  cases Instruction.fault_of_decode h

/-- What is fetched is what the word there encodes. -/
theorem word_of_fetch (h : m.fetch = .ok ins) :
    ∃ word, m.memory.word m.registers.pc.toNat = .ok word ∧ Instruction.decode word = .ok ins := by
  simp only [fetch] at h
  split at h
  · cases h
  · cases hw : m.memory.word m.registers.pc.toNat with
    | error fault =>
      rw [hw] at h
      cases h
    | ok word =>
      rw [hw] at h
      exact ⟨word, rfl, h⟩

/-- What is fetched has its operands in range. -/
theorem encodable_of_fetch (h : m.fetch = .ok ins) : ins.Encodable := by
  obtain ⟨word, -, hdecode⟩ := word_of_fetch h
  exact Instruction.encodable_of_decode hdecode

/-- What is fetched is within its bounds. -/
theorem inBounds_of_fetch (h : m.fetch = .ok ins) : m.InBounds ins :=
  inBounds_of_encodable m (encodable_of_fetch h)

end Chip8.Machine
