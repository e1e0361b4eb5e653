import Chip8.Display.Recorder
import Chip8.Memory.Program
import Chip8.Proofs.Cycle
import Chip8.Proofs.Picture.Torus

/-!
# Drawing as an instruction

A draw instruction reads its sprite at the index register and its place from two registers, which
may be VF; only afterwards VF is set to whether a lit pixel was switched off. A sprite has at most
fifteen rows here, so it never meets itself, and drawing it a second time takes it away again.

* `Machine.Paints m x y n a b`: a set bit of the sprite falls on the pixel in column `a` and row
  `b`.
* `Draws x y n m m'` is what the instruction does to the machine; `Executes.draws` says that it does
  so whenever it completes.
* `Repeats x y n m m'`: between two draws everything has stayed that the second one looks at. Then
  it paints the same pixels (`Repeats.paints_iff`) and restores the picture (`Draws.restores`).
* `draw_flips_and_restores` says both of cycles.
-/

namespace Chip8

/-- The bytes of a stretch that has been read are those at its addresses. -/
theorem Memory.byte_of_read {m : Memory} {addr len : Nat} {data : List UInt8}
    (h : m.read addr len = .ok data) {i : Nat} (hi : i < data.length) :
    m.byte (addr + i) = .ok data[i] := by
  have hle := le_of_read h
  have hlen := length_of_read h
  rw [read_eq_ok m hle, Except.ok.injEq] at h
  subst h
  rw [byte_eq_ok m (by omega), List.getElem_ofFn]

/-- The first byte of a word is the one at its address. -/
theorem Memory.byte_of_word {m : Memory} {addr : Nat} {high low : UInt8}
    (h : m.word addr = .ok (wordOfBytes high low)) : m.byte addr = .ok high := by
  have hlt : addr + 1 < 4096 := by
    refine Nat.lt_of_not_le fun hle => ?_
    rw [word_eq_error m hle] at h
    cases h
  rw [word_eq_ok m hlt, Except.ok.injEq] at h
  have hvalue := congrArg UInt16.toNat h
  rw [toNat_wordOfBytes, toNat_wordOfBytes] at hvalue
  have hfound := m.bytes[addr + 1].toNat_lt
  have hlow := low.toNat_lt
  have hhigh : m.bytes[addr].toNat = high.toNat := by omega
  rw [byte_eq_ok m (by omega), UInt8.toNat_inj.1 hhigh]

namespace Machine

/-- The bit in row `i` and column `col` of the sprite at the index register is set. -/
def spriteBit (m : Machine) (i col : Nat) : Bool :=
  match m.memory.byte (m.registers.index.toNat + i) with
  | .ok byte => leadingBit byte col
  | .error _ => false

/-- A set bit of the sprite of `n` rows that is drawn where the operands `x` and `y` tell falls on
the pixel in column `a` and row `b`. -/
def Paints (m : Machine) (x y n : UInt8) (a b : Nat) : Prop :=
  ∃ i < n.toNat, ∃ col < 8, m.spriteBit i col = true ∧
    ((m.operand x).toNat + col) % 64 = a ∧ ((m.operand y).toNat + i) % 32 = b

instance (m : Machine) (x y n : UInt8) (a b : Nat) : Decidable (m.Paints x y n a b) :=
  inferInstanceAs (Decidable (∃ i < n.toNat, ∃ col < 8, m.spriteBit i col = true ∧
    ((m.operand x).toNat + col) % 64 = a ∧ ((m.operand y).toNat + i) % 32 = b))

/-- One of the pixels that the sprite paints is lit, or dark. -/
def Meets (m : Machine) (x y n : UInt8) (lit : Bool) : Prop :=
  ∃ a < 64, ∃ b < 32, m.Paints x y n a b ∧ m.frame.lit a b = lit

instance (m : Machine) (x y n : UInt8) (lit : Bool) : Decidable (m.Meets x y n lit) :=
  inferInstanceAs (Decidable (∃ a < 64, ∃ b < 32, m.Paints x y n a b ∧ m.frame.lit a b = lit))

/-- What drawing a sprite does to the machine. -/
structure Draws (x y n : UInt8) (m m' : Machine) : Prop where
  /-- The pixels painted are switched over, and no other. -/
  frame : ∀ a < 64, ∀ b < 32,
    m'.frame.lit a b = (m.frame.lit a b ^^ decide (m.Paints x y n a b))
  /-- VF tells whether one of them was lit. -/
  flag : m'.v .flag = if m.Meets x y n true then 1 else 0
  /-- The other registers stay, -/
  v : ∀ r, r ≠ .flag → m'.v r = m.v r
  /-- and so does the index register -/
  index : m'.registers.index = m.registers.index
  /-- and memory. -/
  memory : m'.memory = m.memory

variable {keys : KeySet} {m m' : Machine} {e : Effect} {x y n : UInt8} {a b : Nat}

/-- The pixels painted are those that the sprite read hits. -/
theorem paints_iff_hits {rows : List UInt8}
    (hread : m.memory.read m.registers.index.toNat n.toNat = .ok rows) :
    m.Paints x y n a b ↔
      1 ≤ Stamp.hits ⟨(m.operand x).toNat, (m.operand y).toNat, rows⟩ a b := by
  have hlen := Memory.length_of_read hread
  have hbit {i col : Nat} (hi : i < rows.length) : m.spriteBit i col = leadingBit rows[i] col := by
    rw [spriteBit, Memory.byte_of_read hread hi]
  rw [Stamp.one_le_hits_iff]
  constructor
  · rintro ⟨i, hi, col, hcol, hset, hplace⟩
    have hi' : i < rows.length := hlen ▸ hi
    exact ⟨i, hi', col, hcol, hbit hi' ▸ hset, hplace⟩
  · rintro ⟨i, hi, col, hcol, hset, hplace⟩
    exact ⟨i, hlen ▸ hi, col, hcol, (hbit hi).trans hset, hplace⟩

/-- A draw instruction does not fault exactly if its sprite lies in memory. -/
theorem fault?_draw_eq_none_iff (h : m.fetch = .ok (.draw x y n)) :
    m.fault? = none ↔ m.registers.index.toNat + n.toNat ≤ 4096 := by
  rw [fault?_of_fetch h, faultOf, readFault?]
  split
  · rename_i hlong
    exact iff_of_false (Option.some_ne_none _) (Nat.not_le.2 hlong)
  · rename_i hfits
    exact iff_of_true rfl (Nat.le_of_not_lt hfits)

/-- A draw instruction that completes has read a sprite of at most fifteen rows, drawn it to its
end, and set the flag to whether a pixel was switched off. -/
theorem Executes.exists_stamp (h : Executes keys m (.draw x y n) e) :
    ∃ s : Stamp, s.InRange ∧ s.rows.length ≤ 15 ∧ (∀ a b, m.Paints x y n a b ↔ 1 ≤ s.hits a b) ∧
      e.machine = { m with frame := (m.frame.stamp s).frame, redraw := true }.setFlag
        (m.frame.stamp s).erased := by
  have hin := inBounds_of_fetch h.fetched
  obtain ⟨r, hr, -, hv⟩ := hin.exists_register (x := x) List.mem_cons_self
  obtain ⟨q, hq, -, hw⟩ := hin.exists_register (x := y) (List.mem_cons_of_mem _ List.mem_cons_self)
  have hn : n < 16 :=
    hin.registers n (List.mem_cons_of_mem _ (List.mem_cons_of_mem _ List.mem_cons_self))
  have hlen := (fault?_draw_eq_none_iff h.fetched).1 h.fault?_eq_none
  obtain ⟨rows, hread⟩ : ∃ rows, m.memory.read m.registers.index.toNat n.toNat = .ok rows :=
    ⟨_, Memory.read_eq_ok m.memory hlen⟩
  have hrows : rows.length ≤ 15 := by
    have hn' : n.toNat < 16 := UInt8.lt_iff_toNat_lt.1 hn
    rw [Memory.length_of_read hread]
    omega
  have hrange : Stamp.InRange ⟨(m.operand x).toNat, (m.operand y).toNat, rows⟩ := by
    have hcol := (m.operand x).toNat_lt
    have hrow := (m.operand y).toNat_lt
    constructor
    · show (m.operand x).toNat + 7 < coordinateLimit
      unfold coordinateLimit
      omega
    · show (m.operand y).toNat + rows.length < coordinateLimit
      unfold coordinateLimit
      omega
  refine ⟨_, hrange, hrows, fun a b => paints_iff_hits hread, ?_⟩
  have hdone := Frame.overflowed_stamp (f := m.frame) hrange
  rw [hv, hw] at hdone ⊢
  have hexec := h.executed.symm.trans (execute_draw hr hq hread rfl hdone)
  exact congrArg Effect.machine (Except.ok.inj hexec)

/-- **A draw instruction that completes draws its sprite.** -/
theorem Executes.draws (h : Executes keys m (.draw x y n) e) : Draws x y n m e.machine := by
  obtain ⟨s, hrange, hrows, hpaints, he⟩ := h.exists_stamp
  -- the sprite is not high enough to meet itself
  have honce (a b : Nat) : ¬ 2 ≤ s.hits a b := fun h2 => by
    have := Stamp.lt_length_of_hits h2
    omega
  have hmeets : (m.frame.stamp s).erased = true ↔ m.Meets x y n true := by
    simp only [Frame.erased_stamp hrange, honce, or_false, Meets, hpaints]
  rw [he]
  constructor
  · intro a ha b hb
    show (m.frame.stamp s).frame.lit a b = _
    rw [Frame.lit_stamp hrange ha hb]
    have hodd : s.hits a b % 2 = 1 ↔ m.Paints x y n a b := by
      rw [hpaints]
      have := honce a b
      omega
    exact congrArg _ (decide_eq_decide.2 hodd)
  · rw [v_setFlag, if_pos rfl]
    simp only [hmeets]
  · intro r hr
    rw [v_setFlag, if_neg hr]
    rfl
  · rfl
  · rfl

/-! ## Drawing again -/

/-- Everything that a draw instruction looks at is the same in a second state: the picture, the
index register, the two operands and the bytes of the sprite. -/
structure Repeats (x y n : UInt8) (m m' : Machine) : Prop where
  frame : m'.frame = m.frame
  index : m'.registers.index = m.registers.index
  column : m'.operand x = m.operand x
  row : m'.operand y = m.operand y
  sprite : ∀ i < n.toNat, m'.memory.byte (m'.registers.index.toNat + i) =
    m.memory.byte (m.registers.index.toNat + i)

/-- Then it paints the same pixels. -/
theorem Repeats.paints_iff (h : Repeats x y n m m') :
    m'.Paints x y n a b ↔ m.Paints x y n a b := by
  have hbit {i : Nat} (hi : i < n.toNat) (col : Nat) : m'.spriteBit i col = m.spriteBit i col := by
    rw [spriteBit, spriteBit, h.sprite i hi]
  unfold Paints
  rw [h.column, h.row]
  refine exists_congr fun i => and_congr_right fun hi => ?_
  simp only [hbit hi]

/-- A register other than VF is the same for an instruction after a sprite has been drawn. -/
theorem Draws.operand (h : Draws x y n m m') {z : UInt8} (hlt : z.toNat < 16) (hz : z ≠ 15) :
    m'.operand z = m.operand z := by
  rw [operand_eq m' hlt, operand_eq m hlt]
  apply h.v
  intro he
  have hval : z.toNat = 15 := congrArg Fin.val he
  exact hz (UInt8.toNat_inj.1 hval)

/-- Drawing a sprite changes nothing that decides which pixels it paints, unless VF does. -/
theorem Draws.paints_iff (h : Draws x y n m m') (hx : m'.operand x = m.operand x)
    (hy : m'.operand y = m.operand y) : m'.Paints x y n a b ↔ m.Paints x y n a b := by
  unfold Paints spriteBit
  rw [hx, hy, h.memory, h.index]

/-- A sprite paints some pixel exactly if it has a set bit. -/
theorem exists_paints_iff : (∃ a < 64, ∃ b < 32, m.Paints x y n a b) ↔
    ∃ i < n.toNat, ∃ col < 8, m.spriteBit i col = true := by
  constructor
  · rintro ⟨a, -, b, -, i, hi, col, hcol, hset, -⟩
    exact ⟨i, hi, col, hcol, hset⟩
  · rintro ⟨i, hi, col, hcol, hset⟩
    exact ⟨_, Nat.mod_lt _ (by decide), _, Nat.mod_lt _ (by decide), i, hi, col, hcol, hset, rfl,
      rfl⟩

/-- Every pixel that is painted is lit or dark. -/
theorem meets_or_meets_iff : m.Meets x y n true ∨ m.Meets x y n false ↔
    ∃ i < n.toNat, ∃ col < 8, m.spriteBit i col = true := by
  rw [← exists_paints_iff]
  constructor
  · rintro (⟨a, ha, b, hb, hp, -⟩ | ⟨a, ha, b, hb, hp, -⟩) <;> exact ⟨a, ha, b, hb, hp⟩
  · rintro ⟨a, ha, b, hb, hp⟩
    cases hlit : m.frame.lit a b with
    | true => exact .inl ⟨a, ha, b, hb, hp, hlit⟩
    | false => exact .inr ⟨a, ha, b, hb, hp, hlit⟩

variable {m₁ m₂ m₃ : Machine}

/-- **Drawing the same sprite again restores the picture.** -/
theorem Draws.restores (h : Draws x y n m m₁) (hframe : m₂.frame = m₁.frame)
    (hpaints : ∀ a b, m₂.Paints x y n a b ↔ m.Paints x y n a b) (h' : Draws x y n m₂ m₃) :
    m₃.frame = m.frame := by
  apply Frame.ext_lit
  intro a ha b hb
  rw [h'.frame a ha b hb, hframe, h.frame a ha b hb, Bool.xor_assoc,
    decide_eq_decide.2 (hpaints a b), Bool.xor_self, Bool.xor_false]

/-- It meets a lit pixel where the first sprite met a dark one. -/
theorem Draws.meets_iff (h : Draws x y n m m₁) (hframe : m₂.frame = m₁.frame)
    (hpaints : ∀ a b, m₂.Paints x y n a b ↔ m.Paints x y n a b) :
    m₂.Meets x y n true ↔ m.Meets x y n false := by
  unfold Meets
  refine exists_congr fun a => and_congr_right fun ha => exists_congr fun b =>
    and_congr_right fun hb => ?_
  rw [hpaints, hframe, h.frame a ha b hb]
  refine and_congr_right fun hp => ?_
  rw [decide_eq_true hp, Bool.xor_true, Bool.not_eq_true']

end Machine

namespace Vm

open Machine

variable {δ : Type} {vm : Vm δ} {display : Display δ} {keys : KeySet} {x y n : UInt8}

/-- A cycle that executes a draw instruction draws its sprite. -/
theorem cycle_draws (hins : vm.machine.fetch = .ok (.draw x y n))
    (h : ∀ pc fault, (vm.cycle display keys).1.outcome ≠ .failed (.fatal pc fault)) :
    Draws x y n vm.machine (vm.cycle display keys).2.machine := by
  rcases (turn_cycle display keys vm).fatal_or_executes with
    ⟨⟨fault, hfatal⟩, -⟩ | ⟨-, ins, e, redraw, hexec, hafter⟩
  · exact absurd hfatal (h _ fault)
  · obtain rfl : .draw x y n = ins := Except.ok.inj (hins.symm.trans hexec.fetched)
    have hdraws := hexec.draws
    rw [hafter]
    exact ⟨hdraws.frame, hdraws.flag, hdraws.v, hdraws.index, hdraws.memory⟩

/-- **A draw instruction switches the pixels of its sprite over, and a second one restores them.**
The place is taken from the registers as they were before, VF among them; VF tells afterwards
whether a pixel was lit that the sprite painted. When the operands are other registers, and the
same instruction is executed again in a state where the picture, the index register, the operands
and the sprite are still the same, it does not fault, the picture is as it was at first, VF tells
whether a painted pixel was dark at first, and unless the sprite has no set bit one of the two
instructions has set VF. -/
theorem draw_flips_and_restores (hins : vm.machine.fetch = .ok (.draw x y n))
    (h : ∀ pc fault, (vm.cycle display keys).1.outcome ≠ .failed (.fatal pc fault)) :
    Draws x y n vm.machine (vm.cycle display keys).2.machine ∧
    (x ≠ 15 → y ≠ 15 → ∀ (ε : Type) (again : Vm ε) (display' : Display ε) (keys' : KeySet),
      again.machine.fetch = .ok (.draw x y n) →
      Repeats x y n (vm.cycle display keys).2.machine again.machine →
      (∀ pc fault, (again.cycle display' keys').1.outcome ≠ .failed (.fatal pc fault)) ∧
      (again.cycle display' keys').2.machine.frame = vm.machine.frame ∧
      (again.cycle display' keys').2.machine.v .flag =
        (if vm.machine.Meets x y n false then 1 else 0) ∧
      ((vm.cycle display keys).2.machine.v .flag = 1 ∨
          (again.cycle display' keys').2.machine.v .flag = 1 ↔
        ∃ i < n.toNat, ∃ col < 8, vm.machine.spriteBit i col = true)) := by
  have hfirst := cycle_draws hins h
  refine ⟨hfirst, fun hx hy ε again display' keys' hins' hrep => ?_⟩
  have hnibbles := (inBounds_of_fetch hins).registers
  have hx' : x.toNat < 16 := UInt8.lt_iff_toNat_lt.1 (hnibbles x List.mem_cons_self)
  have hy' : y.toNat < 16 :=
    UInt8.lt_iff_toNat_lt.1 (hnibbles y (List.mem_cons_of_mem _ List.mem_cons_self))
  have hpaints (a b : Nat) : again.machine.Paints x y n a b ↔ vm.machine.Paints x y n a b :=
    hrep.paints_iff.trans (hfirst.paints_iff (hfirst.operand hx' hx) (hfirst.operand hy' hy))
  have hgoes : ∀ pc fault, (again.cycle display' keys').1.outcome ≠ .failed (.fatal pc fault) := by
    rw [not_fatal_iff, fault?_draw_eq_none_iff hins', hrep.index, hfirst.index]
    exact (fault?_draw_eq_none_iff hins).1 (not_fatal_iff.1 h)
  have hsecond := cycle_draws hins' hgoes
  have hmeets := hfirst.meets_iff hrep.frame hpaints
  have hflag := hsecond.flag
  simp only [hmeets] at hflag
  refine ⟨hgoes, hfirst.restores hrep.frame hpaints hsecond, hflag, ?_⟩
  have hone (p : Prop) [Decidable p] : (if p then (1 : UInt8) else 0) = 1 ↔ p := by
    by_cases hp : p <;> simp [hp]
  rw [hfirst.flag, hflag, hone, hone, meets_or_meets_iff]

/-- A machine whose index register points at the program. -/
def pointing (memory : Memory) : Vm Recorder :=
  ⟨{ Machine.boot memory 0 with registers := { index := 0x200 } }, {}⟩

/-- A program that draws its own two bytes meets nothing on the blank screen; when it is started
again the screen is blank again, and VF tells that something was there. -/
theorem draw_flips_and_restores_itself :
    ∃ memory, Memory.ofProgram ⟨[[0xD0, 0x12]], none⟩ = .ok (2, memory) ∧
      ∃ first again second : Vm Recorder,
        first = ((pointing memory).cycle (Recorder.display []) .empty).2 ∧
        (∀ pc fault, ((pointing memory).cycle (Recorder.display []) .empty).1.outcome ≠
          .failed (.fatal pc fault)) ∧
        again = { first with machine := first.machine.goTo 0x200 } ∧
        second = (again.cycle (Recorder.display []) .empty).2 ∧
        first.machine.v .flag = 0 ∧ second.machine.frame = .blank ∧ second.machine.v .flag = 1 := by
  obtain ⟨memory, hload, hword⟩ := Memory.exists_ofProgram_word 0xD0 0x12
  have hfetch {m : Machine} (hm : m.memory = memory) (hpc : m.registers.pc = 0x200) :
      m.fetch = .ok (.draw 0 1 2) := by
    have hpc' : m.registers.pc.toNat = 0x200 := by rw [hpc]; rfl
    rw [fetch_eq_bind _ (by omega) (by omega) (by omega), hpc', hm]
    show memory.word 0x200 >>= _ = _
    rw [hword]
    rfl
  have hins : (pointing memory).machine.fetch = .ok (.draw 0 1 2) := hfetch rfl rfl
  have hgoes : ∀ pc fault, ((pointing memory).cycle (Recorder.display []) .empty).1.outcome ≠
      .failed (.fatal pc fault) :=
    not_fatal_iff.2 ((fault?_draw_eq_none_iff hins).2 (show 0x200 + 2 ≤ 4096 by decide))
  obtain ⟨hfirst, hagain⟩ := draw_flips_and_restores hins hgoes
  have hdark : ¬ (pointing memory).machine.Meets 0 1 2 true := by
    rintro ⟨a, -, b, -, -, hlit⟩
    exact Bool.false_ne_true ((Frame.lit_blank a b).symm.trans hlit)
  have hbit : (pointing memory).machine.spriteBit 0 0 = true := by
    have hbyte : memory.byte 0x200 = .ok 0xD0 := Memory.byte_of_word hword
    show (match memory.byte 0x200 with | .ok byte => leadingBit byte 0 | .error _ => false) = true
    rw [hbyte]
    rfl
  have hzero := hfirst.flag.trans (if_neg hdark)
  obtain ⟨-, hframe, -, hset⟩ := hagain (by decide) (by decide) Recorder
    { ((pointing memory).cycle (Recorder.display []) .empty).2 with
      machine := ((pointing memory).cycle (Recorder.display []) .empty).2.machine.goTo 0x200 }
    (Recorder.display []) .empty (hfetch hfirst.memory rfl) ⟨rfl, rfl, rfl, rfl, fun _ _ => rfl⟩
  refine ⟨memory, hload, _, _, _, rfl, hgoes, rfl, rfl, hzero, hframe, ?_⟩
  rcases hset.2 ⟨0, by decide, 0, by decide, hbit⟩ with hone | hone
  · rw [hzero] at hone
    cases hone
  · exact hone

end Vm

end Chip8
