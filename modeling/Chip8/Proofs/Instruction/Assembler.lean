import Chip8.Instruction.Mnemonic
import Chip8.Proofs.Instruction.Words
import Mathlib.Data.List.TakeWhile

/-!
# Reading assembler text back

A line of assembler text can be read back, so no two instructions share a line, whatever their
operands are. A listing therefore tells every word that it lists, but for the nibble that a shift
does not use.

* `Operand.read`, `Mnemonic.read` and `Mnemonic.instruction?` are the way back, stage by stage:
  from a spelling to its operand, from a line to a name with operands, and from these to the
  instruction that is called so. `Instruction.assemble?` goes all the way.
* `Plain` is what keeps the stages apart: no operand is spelled with a blank or a comma, and no name
  with a blank.
* `Operand.read_text`, `Mnemonic.read_text` and `Mnemonic.instruction?_mnemonic` take back one stage
  each, and `Instruction.assemble?_text` all of them.
* `disassemble_eq_iff`: the lines for two words are the same exactly when the words are read alike.
-/

namespace Chip8

/-! ## Characters that separate -/

/-- There is no blank among the characters, and no comma. -/
def Plain (cs : List Char) : Prop := ∀ c ∈ cs, c ≠ ' ' ∧ c ≠ ','

namespace Plain

/-- Digits that are changed one by one are plain if every changed digit is. -/
theorem map_digits {f : Char → Char} (n : Nat)
    (hf : ∀ d : Fin 16, f d.val.digitChar ≠ ' ' ∧ f d.val.digitChar ≠ ',') :
    Plain ((Hexadecimal.digits n).map f) := by
  intro c hc
  obtain ⟨digit, hdigit, rfl⟩ := List.mem_map.1 hc
  obtain ⟨d, hd, rfl⟩ := Hexadecimal.exists_digitChar hdigit
  exact hf ⟨d, hd⟩

/-- Digits are plain. -/
theorem digits (n : Nat) : Plain (Hexadecimal.digits n) := by
  simpa using map_digits (f := id) n (by decide)

/-- So they are in upper case. -/
theorem upperDigits (n : Nat) : Plain ((Hexadecimal.digits n).map Char.toUpper) :=
  map_digits n (by decide)

/-- So are marked numbers. -/
theorem marked (width n : Nat) : Plain (Hexadecimal.marked width n).toList := by
  intro c hc
  rw [Hexadecimal.toList_marked, List.leftpad] at hc
  simp only [List.mem_cons, List.mem_append, List.mem_replicate] at hc
  rcases hc with rfl | rfl | ⟨-, rfl⟩ | hdigit
  · decide
  · decide
  · decide
  · exact Plain.digits n c hdigit

/-- And decimal ones. -/
theorem decimal (n : Nat) : Plain (toString n).toList := by
  intro c hc
  rw [Nat.toString_eq_ofList_toDigits, String.toList_ofList] at hc
  have hdigit := Nat.isDigit_of_mem_toDigits (by decide) (by decide) hc
  constructor
  · rintro rfl
    cases hdigit
  · rintro rfl
    cases hdigit

end Plain

/-- Without blanks, pieces that were joined by a comma and a blank are joined by the comma. -/
theorem filter_intercalate {pieces : List (List Char)} (h : ∀ piece ∈ pieces, Plain piece) :
    ([',', ' '].intercalate pieces).filter (· != ' ') = [','].intercalate pieces := by
  induction pieces with
  | nil => rfl
  | cons piece rest ih =>
    have hpiece : piece.filter (· != ' ') = piece := by
      apply List.filter_eq_self.2
      intro c hc
      simpa using (h piece List.mem_cons_self c hc).1
    cases rest with
    | nil => simpa using hpiece
    | cons next rest =>
      have hrest := ih fun piece hp => h piece (List.mem_cons_of_mem _ hp)
      simp only [List.intercalate_cons_cons, List.filter_append, hpiece, hrest]
      rfl

/-! ## Operands -/

namespace Operand

/-- The operand that is spelled so. Two digits after the mark are a byte and any other number of
them an address; what is spelled in no other way is a count. -/
def read : List Char → Operand
  | 'V' :: digits => register (.ofNat (Hexadecimal.value digits))
  | '0' :: 'x' :: digits =>
    if digits.length = 2 then byte (.ofNat (Hexadecimal.value digits))
    else address (.ofNat (Hexadecimal.value digits))
  | ['I'] => index
  | ['[', 'I', ']'] => atIndex
  | ['D', 'T'] => delay
  | ['S', 'T'] => sound
  | ['K'] => key
  | ['F'] => glyph
  | ['B'] => decimal
  | digits => count (.ofNat (Nat.ofDigitChars 10 digits 0))

/-- No operand is spelled with a blank or a comma. -/
theorem plain_text (o : Operand) : Plain o.text.toList := by
  cases o with
  | register x =>
    have hdigits := Plain.upperDigits x.toNat
    simpa [text, Plain] using hdigits
  | byte kk => exact Plain.marked 4 kk.toNat
  | address nnn => exact Plain.marked 5 nnn.toNat
  | count n => exact Plain.decimal n.toNat
  | _ => simp [text, Plain]

/-- The name of a register is read back. -/
theorem read_register (x : UInt8) : read (register x).text.toList = register x := by
  have htext : (register x).text.toList =
      'V' :: (Hexadecimal.digits x.toNat).map Char.toUpper := by
    simp [text]
  rw [htext, read, Hexadecimal.value_map_toUpper_digits, UInt8.ofNat_toNat]

/-- A byte has no more digits than it is filled up to. -/
theorem read_byte (kk : UInt8) : read (byte kk).text.toList = byte kk := by
  have hdigits := Hexadecimal.length_digits_le_two kk.toNat_lt
  have hlength : ((Hexadecimal.digits kk.toNat).leftpad (4 - 2) '0').length = 2 := by
    rw [List.length_leftpad]
    omega
  rw [text, Hexadecimal.toList_marked, read, if_pos hlength, Hexadecimal.value_leftpad_digits,
    UInt8.ofNat_toNat]

/-- An address is filled up to three digits. -/
theorem read_address (nnn : UInt16) : read (address nnn).text.toList = address nnn := by
  have hlength : ((Hexadecimal.digits nnn.toNat).leftpad (5 - 2) '0').length ≠ 2 := by
    rw [List.length_leftpad]
    omega
  rw [text, Hexadecimal.toList_marked, read, if_neg hlength, Hexadecimal.value_leftpad_digits,
    UInt16.ofNat_toNat]

/-- A count is spelled with decimal digits alone, as no other operand is. -/
theorem read_count (n : UInt8) : read (count n).text.toList = count n := by
  have htext : (count n).text.toList = Nat.toDigits 10 n.toNat := by
    simp [text]
  have hvalue : Nat.ofDigitChars 10 (Nat.toDigits 10 n.toNat) 0 = n.toNat :=
    Nat.ofDigitChars_toDigits (by decide) (by decide)
  have hdigit : ∀ c ∈ Nat.toDigits 10 n.toNat, c.isDigit = true := fun c hc =>
    Nat.isDigit_of_mem_toDigits (by decide) (by decide) hc
  rw [htext]
  generalize Nat.toDigits 10 n.toNat = digits at *
  unfold read
  split
  case h_10 => rw [hvalue, UInt8.ofNat_toNat]
  -- any other spelling has a character that is no digit
  all_goals simp at hdigit

/-- **Every operand is read back.** -/
theorem read_text (o : Operand) : read o.text.toList = o := by
  cases o with
  | register x => exact read_register x
  | byte kk => exact read_byte kk
  | address nnn => exact read_address nnn
  | count n => exact read_count n
  | _ => simp [text, read]

end Operand

/-! ## Lines -/

namespace Mnemonic

/-- What a line says. Up to the first blank it is a name, and what comes after that are operands
with commas between them. -/
def read (line : List Char) : Mnemonic where
  name := String.ofList (line.takeWhile (· != ' '))
  operands :=
    match line.dropWhile (· != ' ') with
    | [] => []
    | _ :: rest => ((rest.filter (· != ' ')).splitOn ',').map Operand.read

open Operand Instruction in
/-- The instruction that is called so. -/
def instruction? : Mnemonic → Option Instruction
  | ⟨"CLS", []⟩ => some clear
  | ⟨"RET", []⟩ => some ret
  | ⟨"JP", [address nnn]⟩ => some (jump nnn)
  | ⟨"JP", [register _, address nnn]⟩ => some (jumpFrom nnn)
  | ⟨"CALL", [address nnn]⟩ => some (call nnn)
  | ⟨"SE", [register x, byte kk]⟩ => some (skipIfByte x kk)
  | ⟨"SE", [register x, register y]⟩ => some (skipIfSame x y)
  | ⟨"SNE", [register x, byte kk]⟩ => some (skipUnlessByte x kk)
  | ⟨"SNE", [register x, register y]⟩ => some (skipUnlessSame x y)
  | ⟨"LD", [register x, byte kk]⟩ => some (setByte x kk)
  | ⟨"LD", [register x, register y]⟩ => some (copy x y)
  | ⟨"LD", [index, address nnn]⟩ => some (setIndex nnn)
  | ⟨"LD", [register x, delay]⟩ => some (readDelay x)
  | ⟨"LD", [register x, key]⟩ => some (awaitKey x)
  | ⟨"LD", [delay, register x]⟩ => some (setDelay x)
  | ⟨"LD", [sound, register x]⟩ => some (setSound x)
  | ⟨"LD", [glyph, register x]⟩ => some (pointGlyph x)
  | ⟨"LD", [decimal, register x]⟩ => some (storeDecimal x)
  | ⟨"LD", [atIndex, register x]⟩ => some (save x)
  | ⟨"LD", [register x, atIndex]⟩ => some (restore x)
  | ⟨"ADD", [register x, byte kk]⟩ => some (addByte x kk)
  | ⟨"ADD", [register x, register y]⟩ => some (add x y)
  | ⟨"ADD", [index, register x]⟩ => some (addIndex x)
  | ⟨"OR", [register x, register y]⟩ => some (or x y)
  | ⟨"AND", [register x, register y]⟩ => some (and x y)
  | ⟨"XOR", [register x, register y]⟩ => some (xor x y)
  | ⟨"SUB", [register x, register y]⟩ => some (subtract x y)
  | ⟨"SUBN", [register x, register y]⟩ => some (subtractFrom x y)
  | ⟨"SHR", [register x]⟩ => some (shiftRight x)
  | ⟨"SHL", [register x]⟩ => some (shiftLeft x)
  | ⟨"RND", [register x, byte kk]⟩ => some (random x kk)
  | ⟨"DRW", [register x, register y, count n]⟩ => some (draw x y n)
  | ⟨"SKP", [register x]⟩ => some (skipIfKey x)
  | ⟨"SKNP", [register x]⟩ => some (skipUnlessKey x)
  | _ => none

/-- A mnemonic belongs to the instruction that it was made for. -/
theorem instruction?_mnemonic (ins : Instruction) : ins.mnemonic.instruction? = some ins := by
  cases ins <;> rfl

variable {m : Mnemonic}

/-- Without operands the text is the name. -/
theorem toList_text_of_nil (h : m.operands = []) : m.text.toList = m.name.toList := by
  rw [text, h]

/-- With operands the name is followed by them, with commas in between. -/
theorem toList_text_of_ne_nil (h : m.operands ≠ []) :
    m.text.toList = m.name.toList ++ ' ' ::
      [',', ' '].intercalate (m.operands.map fun o => o.text.toList) := by
  obtain ⟨name, operands⟩ := m
  cases operands with
  | nil => exact absurd rfl h
  | cons o rest => simp [text, String.toList_intercalate, Function.comp_def]

/-- The operands are told apart by the commas, and the blanks after these do not matter. -/
theorem splitOn_intercalate_operands {operands : List Operand} (h : operands ≠ []) :
    (([',', ' '].intercalate (operands.map fun o => o.text.toList)).filter (· != ' ')).splitOn ','
      = operands.map fun o => o.text.toList := by
  have hplain : ∀ piece ∈ operands.map (fun o => o.text.toList), Plain piece := by
    intro piece hpiece
    obtain ⟨o, -, rfl⟩ := List.mem_map.1 hpiece
    exact o.plain_text
  have hcomma : ∀ piece ∈ operands.map (fun o => o.text.toList), ',' ∉ piece :=
    fun piece hpiece hc => (hplain piece hpiece ',' hc).2 rfl
  rw [filter_intercalate hplain]
  exact List.splitOn_intercalate ',' hcomma (by simpa using h)

/-- **Every line is read back** whose name has no blank. -/
theorem read_text (hname : ∀ c ∈ m.name.toList, (c != ' ') = true) : read m.text.toList = m := by
  by_cases hnone : m.operands = []
  · have htake : m.name.toList.takeWhile (· != ' ') = m.name.toList :=
      List.takeWhile_eq_self_iff.2 hname
    have hdrop : m.name.toList.dropWhile (· != ' ') = [] := List.dropWhile_eq_nil_iff.2 hname
    simp only [read, toList_text_of_nil hnone, htake, hdrop, String.ofList_toList]
    rw [← hnone]
  · simp only [read, toList_text_of_ne_nil hnone, List.takeWhile_append_of_pos hname,
      List.dropWhile_append_of_pos hname, List.takeWhile_cons, List.dropWhile_cons]
    simp [splitOn_intercalate_operands hnone, Operand.read_text, Function.comp_def]

end Mnemonic

/-! ## Instructions and words -/

/-- The text of the fault for a word that encodes nothing. -/
theorem Fault.message_unknownInstruction (word : UInt16) :
    (unknownInstruction word).message =
      "unknown instruction " ++ Hexadecimal.marked 6 word.toNat :=
  rfl

namespace Instruction

/-- The instruction that a line is for. -/
def assemble? (line : String) : Option Instruction := (Mnemonic.read line.toList).instruction?

/-- A name is made of capitals. -/
theorem isUpper_of_mem_name {ins : Instruction} {c : Char} (h : c ∈ ins.mnemonic.name.toList) :
    c.isUpper = true := by
  revert c
  cases ins <;> simp [mnemonic]

/-- The text of an instruction is read back as its mnemonic. -/
theorem read_text (ins : Instruction) : Mnemonic.read ins.text.toList = ins.mnemonic := by
  apply Mnemonic.read_text
  intro c hc
  have hupper := isUpper_of_mem_name hc
  rw [bne_iff_ne]
  rintro rfl
  cases hupper

/-- **Every instruction is read back from its line**, whatever its operands are. -/
theorem assemble?_text (ins : Instruction) : assemble? ins.text = some ins := by
  rw [assemble?, read_text, Mnemonic.instruction?_mnemonic]

/-- No two instructions share a line. -/
theorem text_inj {a b : Instruction} : a.text = b.text ↔ a = b := by
  constructor
  · intro h
    have hread : some a = some b := calc
      some a = assemble? a.text := (assemble?_text a).symm
      _ = assemble? b.text := by rw [h]
      _ = some b := assemble?_text b
    exact Option.some.inj hread
  · rintro rfl
    rfl

/-- No instruction's line is the text of a refused word, as that begins with a small letter. -/
theorem text_ne_message_unknownInstruction (ins : Instruction) (word : UInt16) :
    ins.text ≠ (Fault.unknownInstruction word).message := by
  intro h
  have hfirst :
      'u' ∈ (Mnemonic.read (Fault.unknownInstruction word).message.toList).name.toList := by
    simp [Mnemonic.read, Fault.message_unknownInstruction]
  rw [← h, read_text] at hfirst
  cases isUpper_of_mem_name hfirst

/-- The text of a refused word tells the word. -/
theorem message_unknownInstruction_inj {v w : UInt16} :
    (Fault.unknownInstruction v).message = (Fault.unknownInstruction w).message ↔ v = w := by
  constructor
  · intro h
    simp only [Fault.message_unknownInstruction, String.append_right_inj] at h
    exact UInt16.toNat_inj.1 (Hexadecimal.marked_inj h)
  · rintro rfl
    rfl

/-- **The lines for two words are the same exactly when the words are read alike.** -/
theorem disassemble_eq_iff {v w : UInt16} :
    disassemble v = disassemble w ↔ decode v = decode w := by
  cases hv : decode v with
  | ok a =>
    cases hw : decode w with
    | ok b => simp [disassemble, hv, hw, text_inj]
    | error fault =>
      cases fault_of_decode hw
      simp [disassemble, hv, hw, text_ne_message_unknownInstruction]
  | error fault =>
    cases fault_of_decode hv
    cases hw : decode w with
    | ok b => simp [disassemble, hv, hw, (text_ne_message_unknownInstruction b v).symm]
    | error fault =>
      cases fault_of_decode hw
      simp [disassemble, hv, hw, message_unknownInstruction_inj]

/-- **Assembler text is unambiguous.** Instructions with one line are one instruction, whatever
their operands are, and words with one line are one word, or one shift but for the nibble that a
shift does not use. -/
theorem text_unambiguous :
    (∀ a b : Instruction, a.text = b.text → a = b) ∧
      ∀ v w, disassemble v = disassemble w ↔ v = w ∨ SameShift v w := by
  constructor
  · intro a b h
    exact text_inj.1 h
  · intro v w
    rw [disassemble_eq_iff, decode_eq_decode_iff]

end Instruction

end Chip8
