import Chip8.Proofs.Instruction.Operands

/-!
# The words of an instruction

Writing an instruction into a word and reading a word are inverse to each other.

* `Encodes word ins` says that a word is the instruction's, told by writing alone: the operands
  fit, and the word is what is written for some filling of the nibble that a shift does not use.
* `decode_encode`: what is written is read back, whatever fills that nibble.
* `encode_of_decode`: what is read is an instruction that is written as that word.
* `decode_eq_ok_iff` and `decode_eq_error_iff` put them together: a word is read as the instruction
  whose word it is, and as nothing if it is no instruction's.
* `SameShift v w` says that two words are one shift but for the nibble that it does not use, and
  `decode_eq_decode_iff` that no other words are read alike.
* `decode_inverts_encode` is the whole of it.
-/

namespace Chip8.Instruction

/-- The word is one that encodes the instruction. -/
structure Encodes (word : UInt16) (ins : Instruction) : Prop where
  encodable : ins.Encodable
  written : ∃ spare < 16, ins.encode spare = word

/-! ## The fields of a written word -/

section Fields

variable {f x y n kk nnn : Nat} {word : UInt16}

/-- The four nibbles that a word was made of are read off it. -/
theorem fields_wordOfNibbles (hf : f < 16) (hx : x < 16) (hy : y < 16) (hn : n < 16) :
    (wordOfNibbles f x y n).toNat / 4096 = f ∧ (wordOfNibbles f x y n).toNat / 256 % 16 = x ∧
      (wordOfNibbles f x y n).toNat / 16 % 16 = y ∧ (wordOfNibbles f x y n).toNat % 16 = n := by
  rw [wordOfNibbles, UInt16.toNat_ofNat']
  omega

/-- So are two nibbles and a byte. -/
theorem fields_wordOfByte (hf : f < 16) (hx : x < 16) (hkk : kk < 256) :
    (wordOfByte f x kk).toNat / 4096 = f ∧ (wordOfByte f x kk).toNat / 256 % 16 = x ∧
      (wordOfByte f x kk).toNat % 256 = kk := by
  rw [wordOfByte, UInt16.toNat_ofNat']
  omega

/-- So are a nibble and an address. -/
theorem fields_wordOfAddress (hf : f < 16) (hnnn : nnn < 4096) :
    (wordOfAddress f nnn).toNat / 4096 = f ∧ (wordOfAddress f nnn).toNat % 4096 = nnn := by
  rw [wordOfAddress, UInt16.toNat_ofNat']
  omega

/-- A word is made of its own nibbles. -/
theorem wordOfNibbles_eq (hf : word.toNat / 4096 = f) (hn : word.toNat % 16 = n) :
    wordOfNibbles f (word.toNat / 256 % 16) (word.toNat / 16 % 16) n = word := by
  have hlt := word.toNat_lt
  rw [← UInt16.toNat_inj, wordOfNibbles, UInt16.toNat_ofNat']
  omega

/-- A word is made of its own nibbles and byte. -/
theorem wordOfByte_eq (hf : word.toNat / 4096 = f) (hkk : word.toNat % 256 = kk) :
    wordOfByte f (word.toNat / 256 % 16) kk = word := by
  have hlt := word.toNat_lt
  rw [← UInt16.toNat_inj, wordOfByte, UInt16.toNat_ofNat']
  omega

/-- It is made of its own nibble and address. -/
theorem wordOfAddress_eq (hf : word.toNat / 4096 = f) :
    wordOfAddress f (word.toNat % 4096) = word := by
  have hlt := word.toNat_lt
  rw [← UInt16.toNat_inj, wordOfAddress, UInt16.toNat_ofNat']
  omega

end Fields

/-! ## Writing and reading -/

/-- A register number or count of an encodable instruction fits in a nibble. -/
theorem Encodable.toNat_lt {ins : Instruction} (h : ins.Encodable) {n : UInt8}
    (hn : n ∈ ins.nibbles) : n.toNat < 16 :=
  UInt8.lt_iff_toNat_lt.1 (h.1 n hn)

/-- **What is written is read back**, whatever fills the nibble that a shift does not use. -/
theorem decode_encode {ins : Instruction} (h : ins.Encodable) {spare : Nat} (hspare : spare < 16) :
    decode (ins.encode spare) = .ok ins := by
  cases ins with
  | clear | ret => simp [encode, decode]
  | jump nnn | call nnn | setIndex nnn | jumpFrom nnn =>
    have ha : nnn.toNat < 4096 := UInt16.lt_iff_toNat_lt.1 (h.2 nnn rfl)
    simp [encode, decode, fields_wordOfAddress, ha]
  | skipIfByte x kk | skipUnlessByte x kk | setByte x kk | addByte x kk | random x kk =>
    have hx : x.toNat < 16 := h.toNat_lt (by simp [nibbles])
    have hkk := kk.toNat_lt
    simp [encode, decode, fields_wordOfByte, hx, hkk]
  | skipIfSame x y | skipUnlessSame x y | copy x y | or x y | and x y | xor x y | add x y
  | subtract x y | subtractFrom x y =>
    have hx : x.toNat < 16 := h.toNat_lt (by simp [nibbles])
    have hy : y.toNat < 16 := h.toNat_lt (by simp [nibbles])
    simp [encode, decode, fields_wordOfNibbles, hx, hy]
  | draw x y n =>
    have hx : x.toNat < 16 := h.toNat_lt (by simp [nibbles])
    have hy : y.toNat < 16 := h.toNat_lt (by simp [nibbles])
    have hn : n.toNat < 16 := h.toNat_lt (by simp [nibbles])
    simp [encode, decode, fields_wordOfNibbles, hx, hy, hn]
  | shiftRight x | shiftLeft x =>
    have hx : x.toNat < 16 := h.toNat_lt (by simp [nibbles])
    simp [encode, decode, fields_wordOfNibbles, hx, hspare]
  | skipIfKey x | skipUnlessKey x | readDelay x | awaitKey x | setDelay x | setSound x | addIndex x
  | pointGlyph x | storeDecimal x | save x | restore x =>
    have hx : x.toNat < 16 := h.toNat_lt (by simp [nibbles])
    simp [encode, decode, fields_wordOfByte, hx]

/-- **What is read is written as that word**, if the nibble that a shift does not use is filled as
it is there. -/
theorem encode_of_decode {word : UInt16} {ins : Instruction} (h : decode word = .ok ins) :
    ins.encode (word.toNat / 16 % 16) = word := by
  simp only [decode] at h
  -- one case for each row of the table of families
  repeat' split at h
  all_goals cases h
  -- `00E0` and `00EE` are words as they stand, any other is made of its fields
  · exact (UInt16.toNat_inj.1 ‹_›).symm
  · exact (UInt16.toNat_inj.1 ‹_›).symm
  all_goals simp only [encode, toNat_ofNat_nibble, toNat_ofNat_byte, toNat_ofNat_address]
  all_goals simp (disch := first | assumption | rfl) only [wordOfNibbles_eq, wordOfByte_eq,
    wordOfAddress_eq]

/-- A word is read as the instruction whose word it is. -/
theorem decode_eq_ok_iff {word : UInt16} {ins : Instruction} :
    decode word = .ok ins ↔ Encodes word ins := by
  constructor
  · intro h
    exact ⟨encodable_of_decode h, _, Nat.mod_lt _ (by decide), encode_of_decode h⟩
  · rintro ⟨hfits, spare, hspare, rfl⟩
    exact decode_encode hfits hspare

/-- A word is refused if it is no instruction's, and for no other reason. -/
theorem decode_eq_error_iff {word : UInt16} {fault : Fault} :
    decode word = .error fault ↔
      fault = .unknownInstruction word ∧ ∀ ins, ¬ Encodes word ins := by
  simp only [← decode_eq_ok_iff]
  constructor
  · intro h
    refine ⟨fault_of_decode h, fun ins hok => ?_⟩
    rw [h] at hok
    cases hok
  · rintro ⟨rfl, hnone⟩
    cases h : decode word with
    | ok ins => exact absurd h (hnone ins)
    | error fault => rw [fault_of_decode h]

/-! ## Words that are read alike -/

/-- The words are `8xy6` or `8xyE`, both with the same `x` and the same last nibble. -/
def SameShift (v w : UInt16) : Prop :=
  ∃ x < 16, ∃ n, (n = 0x6 ∨ n = 0xE) ∧ ∃ y < 16, ∃ y' < 16,
    v = wordOfNibbles 0x8 x y n ∧ w = wordOfNibbles 0x8 x y' n

variable {v w : UInt16}

/-- Only a shift leaves a nibble to be filled. -/
theorem encode_eq_or_shift (ins : Instruction) (spare spare' : Nat) :
    ins.encode spare = ins.encode spare' ∨ ∃ x, ins = shiftRight x ∨ ins = shiftLeft x := by
  cases ins with
  | shiftRight x => exact .inr ⟨x, .inl rfl⟩
  | shiftLeft x => exact .inr ⟨x, .inr rfl⟩
  | _ => exact .inl rfl

/-- The words of one instruction are one word, or one shift. -/
theorem Encodes.eq_or_sameShift {ins : Instruction} (hv : Encodes v ins) (hw : Encodes w ins) :
    v = w ∨ SameShift v w := by
  obtain ⟨hfits, y, hy, rfl⟩ := hv
  obtain ⟨-, y', hy', rfl⟩ := hw
  rcases encode_eq_or_shift ins y y' with heq | ⟨x, rfl | rfl⟩
  · exact .inl heq
  · have hx : x.toNat < 16 := hfits.toNat_lt (by simp [nibbles])
    exact .inr ⟨x.toNat, hx, 0x6, .inl rfl, y, hy, y', hy', rfl, rfl⟩
  · have hx : x.toNat < 16 := hfits.toNat_lt (by simp [nibbles])
    exact .inr ⟨x.toNat, hx, 0xE, .inr rfl, y, hy, y', hy', rfl, rfl⟩

/-- A shift is read without its unused nibble. -/
theorem SameShift.decode_eq (h : SameShift v w) : decode v = decode w := by
  obtain ⟨x, hx, n, rfl | rfl, y, hy, y', hy', rfl, rfl⟩ := h
  · simp [decode, fields_wordOfNibbles, hx, hy, hy']
  · simp [decode, fields_wordOfNibbles, hx, hy, hy']

/-- **No other words are read alike**: a word that is refused is named in the fault. -/
theorem decode_eq_decode_iff : decode v = decode w ↔ v = w ∨ SameShift v w := by
  constructor
  · intro h
    cases hv : decode v with
    | ok ins =>
      have hw : decode w = .ok ins := h.symm.trans hv
      exact (decode_eq_ok_iff.1 hv).eq_or_sameShift (decode_eq_ok_iff.1 hw)
    | error fault =>
      have hw : decode w = .error fault := h.symm.trans hv
      have hfault := (fault_of_decode hv).symm.trans (fault_of_decode hw)
      exact .inl (Fault.unknownInstruction.inj hfault)
  · rintro (rfl | h)
    · rfl
    · exact h.decode_eq

/-- **Reading is the exact inverse of writing.** An instruction whose operands fit is read back from
every word that it is written as; a word that is read as an instruction is one that it is written
as; and any other word is refused, and no instruction is written as that word. So no word belongs to
two instructions, and the only words that are read alike are shifts that differ in the nibble that a
shift does not use. -/
theorem decode_inverts_encode :
    (∀ ins : Instruction, ins.Encodable → ∀ spare < 16, decode (ins.encode spare) = .ok ins) ∧
      (∀ word ins, decode word = .ok ins →
        ins.Encodable ∧ ∃ spare < 16, ins.encode spare = word) ∧
      (∀ word, (∃ ins, decode word = .ok ins) ∨
        decode word = .error (.unknownInstruction word) ∧ ∀ ins, ¬ Encodes word ins) ∧
      (∀ word a b, Encodes word a → Encodes word b → a = b) ∧
      ∀ v w, decode v = decode w ↔ v = w ∨ SameShift v w := by
  refine ⟨fun ins h spare hspare => decode_encode h hspare, ?_, ?_, ?_,
    fun v w => decode_eq_decode_iff⟩
  · intro word ins h
    obtain ⟨hfits, hwritten⟩ := decode_eq_ok_iff.1 h
    exact ⟨hfits, hwritten⟩
  · intro word
    cases h : decode word with
    | ok ins => exact .inl ⟨ins, rfl⟩
    | error fault =>
      obtain ⟨rfl, hnone⟩ := decode_eq_error_iff.1 h
      exact .inr ⟨rfl, hnone⟩
  · intro word a b ha hb
    have hsame := (decode_eq_ok_iff.2 ha).symm.trans (decode_eq_ok_iff.2 hb)
    exact Except.ok.inj hsame

/-- The shift of VA is read back whatever stands in its third nibble. -/
theorem decode_inverts_encode_shift :
    (shiftRight 0xA).Encodable ∧ decode 0x8AB6 = .ok (shiftRight 0xA) ∧
      decode 0x8A06 = .ok (shiftRight 0xA) := by
  have hfits : (shiftRight 0xA).Encodable := by simp [Encodable, nibbles, address?]
  obtain ⟨hread, -⟩ := decode_inverts_encode
  exact ⟨hfits, hread _ hfits 0xB (by decide), hread _ hfits 0x0 (by decide)⟩

end Chip8.Instruction
