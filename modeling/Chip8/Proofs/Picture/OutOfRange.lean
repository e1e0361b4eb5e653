import Chip8.Proofs.Picture.Torus
import Mathlib.Data.Prod.Lex
import Mathlib.Order.WellFounded

/-!
# Drawing out of range

A sprite may be placed so near the end of the coordinates that some of it lies out of range.
Drawing goes row by row and from left to right, and there are two things that it does not get past:
a row out of range, whatever its bits are, and a set bit in a column out of range. What has been
drawn until then stays.

* `RowStops x bits col` and `Stamp.Stops s p` tell at which bit a row and a sprite stop. They are
  about the bits and their order only; `RowStops.exists_of_past` and `Stamp.exists_stops` say that
  there is such a bit as soon as some bit is out of range.
* `Drawing.row_of_stops` and `Drawing.sprite_of_stops` say that exactly the places before that bit
  are switched over, and `Drawing.sprite_of_unblocked` that nothing else stops the drawing.
* `rowHitsBefore` and `Stamp.hitsBefore` count the set bits before a bit that fall on a pixel.
* `Frame.look?` looks a pixel up and checks every number on the way.
* `drawing_stops_out_of_range` puts these together.
-/

namespace Chip8

open Finset

variable {x y a b : Nat} {bits : UInt8} {rows : List UInt8} {col : Nat}

/-! ## Rows -/

/-- The first set bit that is out of range, of a row with its left end in column `x`. -/
structure RowStops (x : Nat) (bits : UInt8) (col : Nat) : Prop where
  isSet : leadingBit bits col = true
  past : coordinateLimit ≤ x + col
  first : ∀ c < col, leadingBit bits c = true → x + c < coordinateLimit

/-- If a set bit is out of range, there is a first one. -/
theorem RowStops.exists_of_past (hset : leadingBit bits col = true)
    (hpast : coordinateLimit ≤ x + col) : ∃ c ≤ col, RowStops x bits c := by
  have hex : ∃ c, leadingBit bits c = true ∧ coordinateLimit ≤ x + c := ⟨col, hset, hpast⟩
  refine ⟨Nat.find hex, Nat.find_min' hex ⟨hset, hpast⟩, (Nat.find_spec hex).1,
    (Nat.find_spec hex).2, fun c hc hcset => ?_⟩
  exact Nat.lt_of_not_le fun hle => Nat.find_min hex hc ⟨hcset, hle⟩

/-- The places of the set bits of a row that are left of a column of it. -/
def marksLeft (x y : Nat) (bits : UInt8) (col : Nat) : List (Nat × Nat) :=
  ((rowColumns bits).filter fun c => c < col).map fun c => (x + c, y)

/-- Nothing is left of the first column. -/
@[simp] theorem marksLeft_zero : marksLeft x y bits 0 = [] := by
  simp [marksLeft]

/-- All of a row is left of column eight. -/
theorem marksLeft_eight : marksLeft x y bits 8 = rowMarks x y bits := by
  have hall : (rowColumns bits).filter (fun c => c < 8) = rowColumns bits :=
    List.filter_eq_self.2 fun c hc => decide_eq_true (mem_rowColumns.1 hc).1
  rw [marksLeft, hall, rowMarks]

/-- How many set bits of a row left of a column fall on the pixel in column `a` and row `b`. -/
def rowHitsBefore (x y : Nat) (bits : UInt8) (col a b : Nat) : Nat :=
  Finset.card {c : Fin 8 | c < col ∧ leadingBit bits c = true ∧ (x + c) % 64 = a ∧ y % 32 = b}

/-- The hits before a column are the marks left of it that hit the pixel. -/
theorem rowHitsBefore_eq :
    rowHitsBefore x y bits col a b = (marksLeft x y bits col).countP (onPixel a b) := by
  rw [marksLeft, List.countP_map, List.countP_filter, Stamp.countP_rowColumns, rowHitsBefore,
    card_filter]
  refine sum_congr rfl fun c _ => ?_
  simp only [Function.comp_apply, Bool.and_eq_true, onPixel_iff, decide_eq_true_eq]
  exact if_congr (by tauto) rfl rfl

/-- The set bits of a row are those left of one of them, that one, and others. -/
theorem exists_rowColumns_eq (hcol : col < 8) (hset : leadingBit bits col = true) :
    ∃ right, rowColumns bits = ((rowColumns bits).filter fun c => c < col) ++ col :: right := by
  obtain ⟨left, right, hsplit⟩ := List.append_of_mem (mem_rowColumns.2 ⟨hcol, hset⟩)
  have hsorted : (left ++ col :: right).Pairwise (· < ·) :=
    hsplit ▸ List.Pairwise.filter _ List.pairwise_lt_range
  obtain ⟨-, hright, hleft⟩ := List.pairwise_append.1 hsorted
  have hbefore : left.filter (fun c => c < col) = left :=
    List.filter_eq_self.2 fun c hc => decide_eq_true (hleft c hc col List.mem_cons_self)
  have hafter : (col :: right).filter (fun c => c < col) = [] := by
    refine List.filter_eq_nil_iff.2 fun c hc => ?_
    rcases List.mem_cons.1 hc with rfl | hc
    · simp
    · have := (List.pairwise_cons.1 hright).1 c hc
      simp only [decide_eq_true_eq]
      omega
  refine ⟨right, ?_⟩
  rw [hsplit, List.filter_append, hbefore, hafter, List.append_nil]

/-- Left of the first bit that is out of range, all marks are in range. -/
theorem marksLeft_inRange (hfirst : ∀ c < col, leadingBit bits c = true → x + c < coordinateLimit) :
    ∀ place ∈ marksLeft x y bits col, place.1 < coordinateLimit := by
  intro place hplace
  obtain ⟨c, hc, rfl⟩ := List.mem_map.1 hplace
  obtain ⟨hc, hlt⟩ := List.mem_filter.1 hc
  exact hfirst c (of_decide_eq_true hlt) (mem_rowColumns.1 hc).2

/-- Without such a bit all marks of the row are. -/
theorem rowMarks_inRange (hin : ∀ c < 8, leadingBit bits c = true → x + c < coordinateLimit) :
    ∀ place ∈ rowMarks x y bits, place.1 < coordinateLimit := by
  rw [← marksLeft_eight]
  exact marksLeft_inRange hin

namespace Drawing

variable {d : Drawing}

/-- A place out of range stops the drawing. -/
theorem plot_of_past (hd : d.overflowed = false) (hx : coordinateLimit ≤ x) :
    d.plot x y = { d with overflowed := true } := by
  rw [plot, if_neg (by simp [hd]), if_neg (Nat.not_lt.2 hx)]

/-- A drawing that has stopped plots nothing more. -/
theorem plotAll_of_overflowed {places : List (Nat × Nat)} (hd : d.overflowed = true) :
    d.plotAll places = d := by
  induction places with
  | nil => rfl
  | cons place rest ih => rw [plotAll_cons, plot_of_overflowed hd, ih]

/-- A row whose set bits are in range does not stop the drawing. -/
theorem overflowed_row_of_inRange (hd : d.overflowed = false)
    (hin : ∀ c < 8, leadingBit bits c = true → x + c < coordinateLimit) :
    (d.row x y bits).overflowed = false := by
  rw [row_eq]
  exact overflowed_plotAll hd (rowMarks_inRange hin)

/-- **A row stops at its first set bit out of range.** The places left of it are switched over. -/
theorem row_of_stops (hd : d.overflowed = false) (hcol : col < 8) (h : RowStops x bits col) :
    d.row x y bits = { d.plotAll (marksLeft x y bits col) with overflowed := true } := by
  obtain ⟨right, hsplit⟩ := exists_rowColumns_eq hcol h.isSet
  have hleft := overflowed_plotAll hd (marksLeft_inRange (y := y) h.first)
  calc d.row x y bits
      = d.plotAll (marksLeft x y bits col ++ (x + col, y) :: right.map fun c => (x + c, y)) := by
        rw [row_eq, rowMarks, hsplit, List.map_append, List.map_cons, marksLeft]
    _ = ((d.plotAll (marksLeft x y bits col)).plot (x + col) y).plotAll
          (right.map fun c => (x + c, y)) := by
        rw [plotAll_append, plotAll_cons]
    _ = { d.plotAll (marksLeft x y bits col) with overflowed := true } := by
        rw [plot_of_past hleft h.past, plotAll_of_overflowed rfl]

end Drawing

/-! ## Sprites -/

namespace Stamp

/-- Drawing does not get past a bit: its row is out of range, whatever the bit is, or it is set and
its column is out of range. -/
def Blocks (s : Stamp) (p : Fin s.rows.length × Fin 8) : Prop :=
  coordinateLimit ≤ s.y + p.1 ∨
    (leadingBit (s.rows.get p.1) p.2 = true ∧ coordinateLimit ≤ s.x + p.2)

/-- The first bit that drawing does not get past, row by row and from left to right. -/
structure Stops (s : Stamp) (p : Fin s.rows.length × Fin 8) : Prop where
  blocks : s.Blocks p
  first : ∀ q, toLex q < toLex p → ¬ s.Blocks q

/-- How many set bits before a bit, row by row and from left to right, fall on the pixel in column
`a` and row `b`. -/
def hitsBefore (s : Stamp) (p : Fin s.rows.length × Fin 8) (a b : Nat) : Nat :=
  Finset.card {q : Fin s.rows.length × Fin 8 | toLex q < toLex p ∧
    leadingBit (s.rows.get q.1) q.2 = true ∧ (s.x + q.2) % 64 = a ∧ (s.y + q.1) % 32 = b}

/-- If drawing does not get past some bit, there is a first one. -/
theorem exists_stops {s : Stamp} {p : Fin s.rows.length × Fin 8} (h : s.Blocks p) :
    ∃ q, s.Stops q := by
  have hwf : WellFounded fun q r : Fin s.rows.length ×ₗ Fin 8 => q < r := wellFounded_lt
  obtain ⟨q, hq, hfirst⟩ := hwf.has_min {q | s.Blocks (ofLex q)} ⟨toLex p, h⟩
  exact ⟨ofLex q, hq, fun r hr hblocks => hfirst (toLex r) hblocks hr⟩

/-- A bit of the first row. -/
theorem blocks_zero {c : Fin 8} : Blocks ⟨x, y, bits :: rows⟩ (0, c) ↔
    coordinateLimit ≤ y ∨ (leadingBit bits c = true ∧ coordinateLimit ≤ x + c) := Iff.rfl

/-- A bit of a row below it. -/
theorem blocks_succ {i : Fin rows.length} {c : Fin 8} :
    Blocks ⟨x, y, bits :: rows⟩ (i.succ, c) ↔ Blocks ⟨x, y + 1, rows⟩ (i, c) := by
  have hbelow : y + (i.val + 1) = y + 1 + i.val := by omega
  unfold Blocks
  simp only [Fin.val_succ, hbelow]
  rfl

/-- Drawing stops in the first row: at its beginning, or at a set bit. -/
theorem Stops.zero {c : Fin 8} (h : Stops ⟨x, y, bits :: rows⟩ (0, c)) :
    (coordinateLimit ≤ y ∧ c = 0) ∨ (y < coordinateLimit ∧ RowStops x bits c) := by
  have hfirst (c' : Fin 8) (hlt : c' < c) : ¬ Blocks ⟨x, y, bits :: rows⟩ (0, c') :=
    h.first (0, c') (Prod.Lex.toLex_lt_toLex.2 (.inr ⟨rfl, hlt⟩))
  rcases Nat.lt_or_ge y coordinateLimit with hy | hy
  · obtain ⟨hset, hpast⟩ := (blocks_zero.1 h.blocks).resolve_left (Nat.not_le.2 hy)
    refine .inr ⟨hy, hset, hpast, fun c' hlt hset' => Nat.lt_of_not_le fun hpast' => ?_⟩
    exact hfirst ⟨c', by omega⟩ hlt (blocks_zero.2 (.inr ⟨hset', hpast'⟩))
  · refine .inl ⟨hy, ?_⟩
    by_contra hne
    exact hfirst 0 (Fin.pos_iff_ne_zero.2 hne) (blocks_zero.2 (.inl hy))

/-- No bit of the first row stops the drawing: the row and its set bits are in range. -/
theorem inRange_of_unblocked (h : ∀ c, ¬ Blocks ⟨x, y, bits :: rows⟩ (0, c)) :
    y < coordinateLimit ∧ ∀ c < 8, leadingBit bits c = true → x + c < coordinateLimit := by
  constructor
  · exact Nat.lt_of_not_le fun hy => h 0 (blocks_zero.2 (.inl hy))
  · intro c hc hset
    exact Nat.lt_of_not_le fun hpast => h ⟨c, hc⟩ (blocks_zero.2 (.inr ⟨hset, hpast⟩))

/-- Nor does any bit below it, if no bit of the sprite does. -/
theorem unblocked_tail (h : ∀ p, ¬ Blocks ⟨x, y, bits :: rows⟩ p) (p : Fin rows.length × Fin 8) :
    ¬ Blocks ⟨x, y + 1, rows⟩ p :=
  fun hblocks => h (p.1.succ, p.2) (blocks_succ.2 hblocks)

/-- Drawing stops below the first row: it gets past that row, and stops among the others. -/
theorem Stops.succ {i : Fin rows.length} {c : Fin 8}
    (h : Stops ⟨x, y, bits :: rows⟩ (i.succ, c)) :
    (∀ c, ¬ Blocks ⟨x, y, bits :: rows⟩ (0, c)) ∧ Stops ⟨x, y + 1, rows⟩ (i, c) := by
  refine ⟨fun c' => h.first _ (Prod.Lex.toLex_lt_toLex.2 (.inl i.succ_pos)),
    blocks_succ.1 h.blocks, fun ⟨j, c'⟩ hlt hblocks => ?_⟩
  refine h.first (j.succ, c') ?_ (blocks_succ.2 hblocks)
  simpa only [Prod.Lex.toLex_lt_toLex, Fin.succ_lt_succ_iff, Fin.succ_inj] using hlt

end Stamp

/-- The places of the set bits of a sprite above its row `i`, and of those in this row that are left
of a column. -/
def marksBefore (x y : Nat) : List UInt8 → Nat → Nat → List (Nat × Nat)
  | [], _, _ => []
  | bits :: _, 0, col => marksLeft x y bits col
  | bits :: rest, i + 1, col => rowMarks x y bits ++ marksBefore x (y + 1) rest i col

/-- Before the bit at which a sprite stops, all marks are in range. -/
theorem marksBefore_inRange {i : Fin rows.length} {c : Fin 8}
    (h : Stamp.Stops ⟨x, y, rows⟩ (i, c)) :
    ∀ place ∈ marksBefore x y rows i c, place.1 < coordinateLimit := by
  induction rows generalizing y with
  | nil => exact i.elim0
  | cons bits rest ih =>
    cases i using Fin.cases with
    | zero =>
      rcases h.zero with ⟨-, rfl⟩ | ⟨-, hrow⟩
      · exact marksLeft_inRange fun c hc => absurd hc (Nat.not_lt_zero c)
      · exact marksLeft_inRange hrow.first
    | succ i =>
      obtain ⟨hrow, hrest⟩ := h.succ
      exact List.forall_mem_append.2
        ⟨rowMarks_inRange (Stamp.inRange_of_unblocked hrow).2, ih hrest⟩

/-- In a sprite that nothing blocks, all of them are. -/
theorem marks_inRange (h : ∀ p, ¬ Stamp.Blocks ⟨x, y, rows⟩ p) :
    ∀ place ∈ marks x y rows, place.1 < coordinateLimit := by
  induction rows generalizing y with
  | nil => exact fun place hplace => absurd hplace List.not_mem_nil
  | cons bits rest ih =>
    have hrow := Stamp.inRange_of_unblocked fun c => h (0, c)
    exact List.forall_mem_append.2 ⟨rowMarks_inRange hrow.2, ih (Stamp.unblocked_tail h)⟩

namespace Drawing

variable {d : Drawing}

/-- **A sprite stops at the first bit that drawing does not get past.** The places before it are
switched over. -/
theorem sprite_of_stops {i : Fin rows.length} {c : Fin 8} (hd : d.overflowed = false)
    (h : Stamp.Stops ⟨x, y, rows⟩ (i, c)) :
    d.sprite x y rows = { d.plotAll (marksBefore x y rows i c) with overflowed := true } := by
  induction rows generalizing d y with
  | nil => exact i.elim0
  | cons bits rest ih =>
    cases i using Fin.cases with
    | zero =>
      rcases h.zero with ⟨hy, rfl⟩ | ⟨hy, hrow⟩
      · rw [sprite, if_neg (by simp [hd]), if_neg (Nat.not_lt.2 hy)]
        simp [marksBefore]
      · rw [sprite, if_neg (by simp [hd]), if_pos hy, row_of_stops hd c.isLt hrow,
          sprite_of_overflowed rfl]
        rfl
    | succ i =>
      obtain ⟨hfirst, hrest⟩ := h.succ
      obtain ⟨hy, hrow⟩ := Stamp.inRange_of_unblocked hfirst
      rw [sprite, if_neg (by simp [hd]), if_pos hy, ih (overflowed_row_of_inRange hd hrow) hrest,
        row_eq, ← plotAll_append]
      rfl

/-- **Nothing else stops a sprite.** -/
theorem sprite_of_unblocked (hd : d.overflowed = false)
    (h : ∀ p, ¬ Stamp.Blocks ⟨x, y, rows⟩ p) : d.sprite x y rows = d.plotAll (marks x y rows) := by
  induction rows generalizing d y with
  | nil => rfl
  | cons bits rest ih =>
    obtain ⟨hy, hrow⟩ := Stamp.inRange_of_unblocked fun c => h (0, c)
    rw [sprite, if_neg (by simp [hd]), if_pos hy,
      ih (overflowed_row_of_inRange hd hrow) (Stamp.unblocked_tail h), row_eq, marks,
      plotAll_append]

end Drawing

/-! ## How often the drawn part falls on a pixel -/

namespace Stamp

/-- In the first row the hits before a bit are those of that row. -/
theorem hitsBefore_zero {c : Fin 8} :
    hitsBefore ⟨x, y, bits :: rows⟩ (0, c) a b = rowHitsBefore x y bits c a b := by
  unfold hitsBefore rowHitsBefore
  rw [card_filter, Fintype.sum_prod_type, card_filter]
  refine (Fin.sum_univ_succ _).trans ?_
  have hbelow (j : Fin rows.length) (c' : Fin 8) : ¬ toLex (j.succ, c') < toLex (0, c) := by
    simp [Prod.Lex.toLex_lt_toLex]
  simp only [hbelow, false_and, if_false, sum_const_zero, add_zero]
  refine sum_congr rfl fun c' _ => if_congr (and_congr_left' ?_) rfl rfl
  simp [Prod.Lex.toLex_lt_toLex]

/-- In a later row those of the first one are added. -/
theorem hitsBefore_succ {i : Fin rows.length} {c : Fin 8} :
    hitsBefore ⟨x, y, bits :: rows⟩ (i.succ, c) a b =
      (rowMarks x y bits).countP (onPixel a b) + hitsBefore ⟨x, y + 1, rows⟩ (i, c) a b := by
  unfold hitsBefore
  rw [countP_rowMarks, card_filter, Fintype.sum_prod_type, card_filter, Fintype.sum_prod_type]
  refine (Fin.sum_univ_succ _).trans (congrArg₂ _ ?_ ?_)
  · refine sum_congr rfl fun c' _ => if_congr ?_ rfl rfl
    exact and_iff_right (Prod.Lex.toLex_lt_toLex.2 (.inl i.succ_pos))
  · refine sum_congr rfl fun j _ => sum_congr rfl fun c' _ => ?_
    have hbelow : y + (j.val + 1) = y + 1 + j.val := by omega
    simp only [Fin.val_succ, hbelow, Prod.Lex.toLex_lt_toLex, Fin.succ_lt_succ_iff, Fin.succ_inj]
    rfl

/-- **The set bits before a bit fall on a pixel as often as a place before it names the pixel.** -/
theorem hitsBefore_eq {i : Fin rows.length} {c : Fin 8} :
    hitsBefore ⟨x, y, rows⟩ (i, c) a b = (marksBefore x y rows i c).countP (onPixel a b) := by
  induction rows generalizing y with
  | nil => exact i.elim0
  | cons bits rest ih =>
    cases i using Fin.cases with
    | zero => exact hitsBefore_zero.trans rowHitsBefore_eq
    | succ i =>
      rw [hitsBefore_succ, ih, ← List.countP_append]
      rfl

end Stamp

/-! ## Looking up a pixel -/

/-- The number, if it is no larger than a coordinate may be. -/
def fitting? (n : Nat) : Option Nat := if n < coordinateLimit then some n else none

/-- A coordinate in range fits. -/
theorem fitting?_eq_some {n : Nat} (h : n < coordinateLimit) : fitting? n = some n := if_pos h

namespace Frame

/-- The pixel at a place, looked up step by step: undefined if a number on the way is too large, if
the frame has no such byte, or the byte no such bit. -/
def look? (f : Frame) (x y : Nat) : Option Bool := do
  let rowStart ← fitting? (y % height * width)
  let p ← fitting? (rowStart + x % width)
  let byte ← f.bytes[p / 8]?
  if p % 8 < 8 then some (leadingBit byte (p % 8)) else none

/-- **Looking up a pixel never fails**, wherever it is. -/
theorem look?_eq_some (f : Frame) (x y : Nat) : f.look? x y = some (f.lit x y) := by
  have hlt := pixelIndex_lt x y
  have hindex : y % height * width + x % width = pixelIndex x y := by
    rw [pixelIndex, Nat.mul_comm]
  have hbyte : pixelIndex x y / 8 < 256 := by omega
  have hbit : pixelIndex x y % 8 < 8 := Nat.mod_lt _ (by decide)
  have hfits : pixelIndex x y < coordinateLimit := Nat.lt_trans hlt (by decide)
  have hrow : y % height * width < coordinateLimit := by omega
  simp only [look?, fitting?_eq_some hrow, fitting?_eq_some hfits, hindex, Option.bind_eq_bind,
    Option.bind_some, Vector.getElem?_eq_getElem hbyte, if_pos hbit]
  rfl

variable {f : Frame}

/-! ## Drawing on a frame -/

/-- A sprite stops if one of its rows or one of its set bits is out of range. -/
theorem overflowed_drawSprite_iff : (f.drawSprite x y rows).overflowed = true ↔
    ∃ p, Stamp.Blocks ⟨x, y, rows⟩ p := by
  constructor
  · intro hstop
    by_contra hnone
    have hclear : ∀ p, ¬ Stamp.Blocks ⟨x, y, rows⟩ p := not_exists.1 hnone
    rw [drawSprite, Drawing.sprite_of_unblocked rfl hclear,
      Drawing.overflowed_plotAll rfl (marks_inRange hclear)] at hstop
    exact Bool.false_ne_true hstop
  · rintro ⟨p, hblocks⟩
    obtain ⟨q, hstops⟩ := Stamp.exists_stops hblocks
    rw [drawSprite, Drawing.sprite_of_stops rfl hstops]

/-- A bit blocks the drawing if it is in a row out of range, or a set bit out of range. -/
theorem exists_blocks_iff : (∃ p, Stamp.Blocks ⟨x, y, rows⟩ p) ↔
    (∃ i < rows.length, coordinateLimit ≤ y + i) ∨
      ∃ i, ∃ hi : i < rows.length, ∃ col < 8,
        leadingBit rows[i] col = true ∧ coordinateLimit ≤ x + col := by
  constructor
  · rintro ⟨⟨i, c⟩, hrow | ⟨hset, hpast⟩⟩
    · exact .inl ⟨i, i.isLt, hrow⟩
    · exact .inr ⟨i, i.isLt, c, c.isLt, hset, hpast⟩
  · rintro (⟨i, hi, hrow⟩ | ⟨i, hi, col, hcol, hset, hpast⟩)
    · exact ⟨(⟨i, hi⟩, 0), .inl hrow⟩
    · exact ⟨(⟨i, hi⟩, ⟨col, hcol⟩), .inr ⟨hset, hpast⟩⟩

/-- A sprite that stops has switched the set bits before that over. -/
theorem lit_drawSprite_of_stops {p : Fin rows.length × Fin 8} (h : Stamp.Stops ⟨x, y, rows⟩ p)
    (ha : a < 64) (hb : b < 32) : (f.drawSprite x y rows).frame.lit a b =
      (f.lit a b ^^ decide (Stamp.hitsBefore ⟨x, y, rows⟩ p a b % 2 = 1)) := by
  rw [drawSprite, Drawing.sprite_of_stops rfl h]
  exact (Drawing.lit_plotAll rfl (marksBefore_inRange h) ha hb).trans (by rw [Stamp.hitsBefore_eq])

/-- A sprite that does not stop has switched all of its set bits over. -/
theorem lit_drawSprite_of_unblocked (h : ∀ p, ¬ Stamp.Blocks ⟨x, y, rows⟩ p) (ha : a < 64)
    (hb : b < 32) : (f.drawSprite x y rows).frame.lit a b =
      (f.lit a b ^^ decide (Stamp.hits ⟨x, y, rows⟩ a b % 2 = 1)) := by
  rw [drawSprite, Drawing.sprite_of_unblocked rfl h, Stamp.hits_eq]
  exact Drawing.lit_plotAll rfl (marks_inRange h) ha hb

/-- A row stops if one of its set bits is out of range. -/
theorem overflowed_drawRow_iff : (f.drawRow x y bits).overflowed = true ↔
    ∃ col < 8, leadingBit bits col = true ∧ coordinateLimit ≤ x + col := by
  constructor
  · intro hstop
    by_contra hnone
    have hin : ∀ c < 8, leadingBit bits c = true → x + c < coordinateLimit := fun c hc hset =>
      Nat.lt_of_not_le fun hpast => hnone ⟨c, hc, hset, hpast⟩
    rw [drawRow, Drawing.overflowed_row_of_inRange rfl hin] at hstop
    exact Bool.false_ne_true hstop
  · rintro ⟨col, hcol, hset, hpast⟩
    obtain ⟨c, hle, hstops⟩ := RowStops.exists_of_past hset hpast
    rw [drawRow, Drawing.row_of_stops rfl (Nat.lt_of_le_of_lt hle hcol) hstops]

/-- A row that stops has switched the set bits left of that over. -/
theorem lit_drawRow_of_stops (hcol : col < 8) (h : RowStops x bits col) (ha : a < 64)
    (hb : b < 32) : (f.drawRow x y bits).frame.lit a b =
      (f.lit a b ^^ decide (rowHitsBefore x y bits col a b % 2 = 1)) := by
  rw [drawRow, Drawing.row_of_stops rfl hcol h, rowHitsBefore_eq]
  exact Drawing.lit_plotAll rfl (marksLeft_inRange h.first) ha hb

/-- A row that does not stop has switched all of its set bits over. -/
theorem lit_drawRow_of_inRange
    (hin : ∀ c < 8, leadingBit bits c = true → x + c < coordinateLimit) (ha : a < 64)
    (hb : b < 32) : (f.drawRow x y bits).frame.lit a b =
      (f.lit a b ^^ decide (rowHitsBefore x y bits 8 a b % 2 = 1)) := by
  rw [drawRow, Drawing.row_eq, rowHitsBefore_eq, marksLeft_eight]
  exact Drawing.lit_plotAll rfl (rowMarks_inRange hin) ha hb

/-- Rows without a set bit change nothing. -/
theorem frame_drawSprite_zeros (n : Nat) : (f.drawSprite x y (List.replicate n 0)).frame = f := by
  have hrow (d : Drawing) (y : Nat) : d.row x y 0 = d := by
    have hmarks : rowMarks x y 0 = [] := by simp [rowMarks, rowColumns]
    rw [Drawing.row_eq, hmarks, Drawing.plotAll_nil]
  suffices h : ∀ d : Drawing, (d.sprite x y (List.replicate n 0)).frame = d.frame from h _
  intro d
  induction n generalizing y with
  | zero => rfl
  | succ n ih =>
    rw [List.replicate_succ, Drawing.sprite, hrow]
    split
    · rfl
    · split
      · exact ih
      · rfl

/-- **Drawing stops where it runs out of the range of coordinates, and nowhere else.** Wherever a
sprite is placed, it is stopped exactly if one of its rows is out of range, be it with or without
set bits, or if one of its set bits is in a column out of range. Then there is a first bit that
drawing does not get past, and a pixel has changed if an odd number of the set bits before that one
fall on it; if the sprite is not stopped, all of its set bits count. So rows without a set bit are
stopped by their number only, never by their columns, and change nothing. A row alone is stopped
exactly by its first set bit out of range, and the set bits left of that count, or all of them.
Looking up a pixel never fails. -/
theorem drawing_stops_out_of_range (f : Frame) (x y : Nat) :
    (∀ rows,
      ((f.drawSprite x y rows).overflowed = true ↔
        (∃ i < rows.length, coordinateLimit ≤ y + i) ∨
          ∃ i, ∃ hi : i < rows.length, ∃ col < 8,
            leadingBit rows[i] col = true ∧ coordinateLimit ≤ x + col) ∧
      ((f.drawSprite x y rows).overflowed = true →
        ∃ p, Stamp.Stops ⟨x, y, rows⟩ p ∧ ∀ a < 64, ∀ b < 32,
          (f.drawSprite x y rows).frame.lit a b =
            (f.lit a b ^^ decide (Stamp.hitsBefore ⟨x, y, rows⟩ p a b % 2 = 1))) ∧
      ((f.drawSprite x y rows).overflowed = false → ∀ a < 64, ∀ b < 32,
        (f.drawSprite x y rows).frame.lit a b =
          (f.lit a b ^^ decide (Stamp.hits ⟨x, y, rows⟩ a b % 2 = 1)))) ∧
    (∀ n,
      ((f.drawSprite x y (List.replicate n 0)).overflowed = true ↔
        ∃ i < n, coordinateLimit ≤ y + i) ∧
      (f.drawSprite x y (List.replicate n 0)).frame = f) ∧
    (∀ bits,
      ((f.drawRow x y bits).overflowed = true ↔
        ∃ col < 8, leadingBit bits col = true ∧ coordinateLimit ≤ x + col) ∧
      ((f.drawRow x y bits).overflowed = true →
        ∃ col < 8, RowStops x bits col ∧ ∀ a < 64, ∀ b < 32,
          (f.drawRow x y bits).frame.lit a b =
            (f.lit a b ^^ decide (rowHitsBefore x y bits col a b % 2 = 1))) ∧
      ((f.drawRow x y bits).overflowed = false → ∀ a < 64, ∀ b < 32,
        (f.drawRow x y bits).frame.lit a b =
          (f.lit a b ^^ decide (rowHitsBefore x y bits 8 a b % 2 = 1)))) ∧
    f.look? x y = some (f.lit x y) := by
  refine ⟨fun rows => ⟨?_, fun hstop => ?_, fun hdone a ha b hb => ?_⟩,
    fun n => ⟨?_, frame_drawSprite_zeros n⟩,
    fun bits => ⟨overflowed_drawRow_iff, fun hstop => ?_, fun hdone a ha b hb => ?_⟩,
    look?_eq_some f x y⟩
  · exact overflowed_drawSprite_iff.trans exists_blocks_iff
  · obtain ⟨p, hblocks⟩ := overflowed_drawSprite_iff.1 hstop
    obtain ⟨q, hstops⟩ := Stamp.exists_stops hblocks
    exact ⟨q, hstops, fun a ha b hb => lit_drawSprite_of_stops hstops ha hb⟩
  · have hclear : ∀ p, ¬ Stamp.Blocks ⟨x, y, rows⟩ p :=
      not_exists.1 (mt overflowed_drawSprite_iff.2 (Bool.eq_false_iff.1 hdone))
    exact lit_drawSprite_of_unblocked hclear ha hb
  · rw [overflowed_drawSprite_iff, exists_blocks_iff]
    simp
  · obtain ⟨col, hcol, hset, hpast⟩ := overflowed_drawRow_iff.1 hstop
    obtain ⟨c, hle, hstops⟩ := RowStops.exists_of_past hset hpast
    have hc : c < 8 := Nat.lt_of_le_of_lt hle hcol
    exact ⟨c, hc, hstops, fun a ha b hb => lit_drawRow_of_stops hc hstops ha hb⟩
  · have hin (c : Nat) (hc : c < 8) (hset : leadingBit bits c = true) : x + c < coordinateLimit :=
      Nat.lt_of_not_le fun hpast => Bool.eq_false_iff.1 hdone
        (overflowed_drawRow_iff.2 ⟨c, hc, hset, hpast⟩)
    exact lit_drawRow_of_inRange hin ha hb

/-- Beside the last column there is no room for a second bit: the first row stays on the screen, and
so does the first bit of the second row. -/
example (f : Frame) : (f.drawSprite (coordinateLimit - 1) 0 [0x80, 0xC0, 0x80]).frame =
    (f.flip 63 0).flip 63 1 := rfl

end Frame

end Chip8
