import Chip8.Picture.Drawing
import Mathlib.Algebra.BigOperators.Fin
import Mathlib.Data.Fintype.BigOperators

/-!
# Sprites on the torus

The screen wraps around on both axes, and drawing switches pixels over. So a pixel remembers of
the sprites drawn on it only whether an even or an odd number of their set bits has fallen on it.

* `marks` lists the places of a sprite's set bits in the order in which they are drawn, and
  `Drawing.sprite_eq` says that drawing the sprite is switching these places over, one after the
  other.
* `Drawing.lit_plotAll` and `Drawing.erased_plotAll` tell the picture and the flag after places
  have been switched over, by how often each pixel is among them. The flag is found out while the
  picture changes; still it depends on the first picture and the numbers only.
* `Stamp.hits` is how many set bits of a sprite fall on a pixel. It is counted over rows and
  columns, without any drawing; `Stamp.hits_eq` says that `marks` has as many.
* `sprites_xor_on_torus` is about any number of sprites, of any height, drawn one after the other.
-/

namespace Chip8

open Finset

/-- A sum is odd if one of its two parts is, but not both. -/
theorem decide_odd_add (m n : Nat) :
    decide ((m + n) % 2 = 1) = (decide (m % 2 = 1) ^^ decide (n % 2 = 1)) := by
  rcases Nat.mod_two_eq_zero_or_one m with hm | hm <;>
    rcases Nat.mod_two_eq_zero_or_one n with hn | hn <;> simp [Nat.add_mod, hm, hn]

/-! ## Switching places over -/

/-- The place names the pixel in column `a` and row `b`. -/
def onPixel (a b : Nat) (place : Nat × Nat) : Bool := place.1 % 64 = a ∧ place.2 % 32 = b

/-- A place is on a pixel if its coordinates wrap around to it. -/
theorem onPixel_iff {a b : Nat} {place : Nat × Nat} :
    onPixel a b place = true ↔ place.1 % 64 = a ∧ place.2 % 32 = b := decide_eq_true_iff

/-- Every place names a pixel. -/
theorem onPixel_mod (place : Nat × Nat) : onPixel (place.1 % 64) (place.2 % 32) place = true :=
  onPixel_iff.2 ⟨rfl, rfl⟩

/-- When places are switched over on a frame, the pixel in column `a` and row `b` goes dark at some
time: it is lit and one of them names it, or two of them do. -/
def Frame.Darkens (f : Frame) (places : List (Nat × Nat)) (a b : Nat) : Prop :=
  (1 ≤ places.countP (onPixel a b) ∧ f.lit a b = true) ∨ 2 ≤ places.countP (onPixel a b)

namespace Drawing

/-- The pixels at a list of places are switched over, one after the other. -/
def plotAll (d : Drawing) (places : List (Nat × Nat)) : Drawing :=
  places.foldl (fun d place => d.plot place.1 place.2) d

variable {d : Drawing} {x y a b : Nat} {bits : UInt8} {rows : List UInt8}
variable {places : List (Nat × Nat)}

/-- Without places nothing is plotted. -/
@[simp] theorem plotAll_nil : d.plotAll [] = d := rfl

/-- The first place is plotted first. -/
theorem plotAll_cons {place : Nat × Nat} :
    d.plotAll (place :: places) = (d.plot place.1 place.2).plotAll places := rfl

/-- More places are plotted after the first ones. -/
theorem plotAll_append {more : List (Nat × Nat)} :
    d.plotAll (places ++ more) = (d.plotAll places).plotAll more :=
  List.foldl_append

/-- A place in range is switched over. -/
theorem plot_eq (hd : d.overflowed = false) (hx : x < coordinateLimit) :
    d.plot x y =
      { d with frame := d.frame.flip x y, erased := d.erased || d.frame.lit x y } := by
  rw [plot, if_neg (by simp [hd]), if_pos hx]

/-- A place in range does not stop the drawing. -/
theorem overflowed_plot (hd : d.overflowed = false) (hx : x < coordinateLimit) :
    (d.plot x y).overflowed = false := by
  rw [plot_eq hd hx]
  exact hd

/-- It flips its own pixel, and no other. -/
theorem lit_plot (hd : d.overflowed = false) (hx : x < coordinateLimit) (ha : a < 64)
    (hb : b < 32) : (d.plot x y).frame.lit a b = (d.frame.lit a b ^^ onPixel a b (x, y)) := by
  have hplace : (x % 64 = a % 64 ∧ y % 32 = b % 32) = (x % 64 = a ∧ y % 32 = b) := by
    rw [Nat.mod_eq_of_lt ha, Nat.mod_eq_of_lt hb]
  rw [plot_eq hd hx]
  show (d.frame.flip x y).lit a b = _
  rw [Frame.lit_flip]
  unfold onPixel
  simp only [hplace, Bool.bne_eq_xor]

/-- It erases if its pixel was lit. -/
theorem erased_plot (hd : d.overflowed = false) (hx : x < coordinateLimit) :
    (d.plot x y).erased = true ↔ d.erased = true ∨ d.frame.lit x y = true := by
  rw [plot_eq hd hx]
  exact Bool.or_eq_true_iff

/-- Places in range are all switched over. -/
theorem overflowed_plotAll (hd : d.overflowed = false)
    (hx : ∀ place ∈ places, place.1 < coordinateLimit) : (d.plotAll places).overflowed = false := by
  induction places generalizing d with
  | nil => exact hd
  | cons place rest ih =>
    rw [plotAll_cons]
    exact ih (overflowed_plot hd (hx place List.mem_cons_self))
      fun p hp => hx p (List.mem_cons_of_mem _ hp)

/-- **The picture after places have been switched over**: a pixel has changed if an odd number of
them names it. -/
theorem lit_plotAll (hd : d.overflowed = false) (hx : ∀ place ∈ places, place.1 < coordinateLimit)
    (ha : a < 64) (hb : b < 32) :
    (d.plotAll places).frame.lit a b =
      (d.frame.lit a b ^^ decide (places.countP (onPixel a b) % 2 = 1)) := by
  induction places generalizing d with
  | nil => simp
  | cons place rest ih =>
    have hfirst := hx place List.mem_cons_self
    rw [plotAll_cons, ih (overflowed_plot hd hfirst) fun p hp => hx p (List.mem_cons_of_mem _ hp),
      lit_plot hd hfirst ha hb, Bool.xor_assoc, List.countP_cons]
    rw [Nat.add_comm, decide_odd_add]
    cases onPixel a b place with
    | false => rfl
    | true => rfl

/-- The first place darkens its pixel if that was lit, and lights it for the rest if it was not. -/
theorem darkens_cons {place : Nat × Nat} (hd : d.overflowed = false)
    (hx : place.1 < coordinateLimit) (ha : a < 64) (hb : b < 32) :
    d.frame.Darkens (place :: places) a b ↔
      (onPixel a b place = true ∧ d.frame.lit a b = true) ∨
        (d.plot place.1 place.2).frame.Darkens places a b := by
  unfold Frame.Darkens
  rw [List.countP_cons, lit_plot hd hx ha hb]
  cases onPixel a b place with
  | false => simp
  | true =>
    cases d.frame.lit a b with
    | true => simp
    | false =>
      simp only [Bool.false_eq_true, and_false, false_or, Bool.false_xor, and_true, if_true]
      omega

/-- **The flag after places have been switched over**: a pixel was darkened. -/
theorem erased_plotAll (hd : d.overflowed = false)
    (hx : ∀ place ∈ places, place.1 < coordinateLimit) :
    (d.plotAll places).erased = true ↔
      d.erased = true ∨ ∃ a < 64, ∃ b < 32, d.frame.Darkens places a b := by
  induction places generalizing d with
  | nil => simp [Frame.Darkens]
  | cons place rest ih =>
    have hfirst := hx place List.mem_cons_self
    have hrest := ih (overflowed_plot (y := place.2) hd hfirst)
      fun p hp => hx p (List.mem_cons_of_mem _ hp)
    rw [plotAll_cons, hrest, erased_plot hd hfirst, or_assoc]
    refine or_congr_right ⟨?_, ?_⟩
    · rintro (hlit | ⟨a, ha, b, hb, hdark⟩)
      · have ha : place.1 % 64 < 64 := Nat.mod_lt _ (by decide)
        have hb : place.2 % 32 < 32 := Nat.mod_lt _ (by decide)
        refine ⟨_, ha, _, hb, (darkens_cons hd hfirst ha hb).2 (.inl ⟨onPixel_mod place, ?_⟩)⟩
        rw [Frame.lit_mod]
        exact hlit
      · exact ⟨a, ha, b, hb, (darkens_cons hd hfirst ha hb).2 (.inr hdark)⟩
    · rintro ⟨a, ha, b, hb, hdark⟩
      rcases (darkens_cons hd hfirst ha hb).1 hdark with ⟨hon, hlit⟩ | hdark
      · obtain ⟨rfl, rfl⟩ := onPixel_iff.1 hon
        rw [Frame.lit_mod] at hlit
        exact .inl hlit
      · exact .inr ⟨a, ha, b, hb, hdark⟩

end Drawing

/-! ## The places of a sprite -/

/-- The places of the set bits of a row with its left end at (x, y), from left to right. -/
def rowMarks (x y : Nat) (bits : UInt8) : List (Nat × Nat) :=
  (rowColumns bits).map fun col => (x + col, y)

/-- The places of the set bits of a sprite with its top left corner at (x, y), row by row and from
left to right. -/
def marks (x y : Nat) : List UInt8 → List (Nat × Nat)
  | [] => []
  | bits :: rest => rowMarks x y bits ++ marks x (y + 1) rest

variable {x y : Nat} {bits : UInt8} {rows : List UInt8}

/-- The columns of a row are those of its set bits. -/
theorem mem_rowColumns {col : Nat} :
    col ∈ rowColumns bits ↔ col < 8 ∧ leadingBit bits col = true := by
  rw [rowColumns, List.mem_filter, List.mem_range]

/-- A row is eight pixels wide. -/
theorem fst_lt_of_mem_rowMarks {place : Nat × Nat} (h : place ∈ rowMarks x y bits) :
    place.1 < x + 8 := by
  obtain ⟨col, hcol, rfl⟩ := List.mem_map.1 h
  exact Nat.add_lt_add_left (mem_rowColumns.1 hcol).1 x

/-- So is a sprite. -/
theorem fst_lt_of_mem_marks {place : Nat × Nat} (h : place ∈ marks x y rows) :
    place.1 < x + 8 := by
  induction rows generalizing y with
  | nil => cases h
  | cons bits rest ih =>
    rcases List.mem_append.1 h with h | h
    · exact fst_lt_of_mem_rowMarks h
    · exact ih h

namespace Drawing

variable {d : Drawing}

/-- Drawing a row is switching its places over. -/
theorem row_eq : d.row x y bits = d.plotAll (rowMarks x y bits) := by
  rw [row, plotAll, rowMarks, List.foldl_map]

/-- **Drawing a sprite is switching its places over**, provided that all of its coordinates are in
range. -/
theorem sprite_eq (hd : d.overflowed = false) (hx : x + 8 ≤ coordinateLimit)
    (hy : y + rows.length ≤ coordinateLimit) : d.sprite x y rows = d.plotAll (marks x y rows) := by
  induction rows generalizing d y with
  | nil => rfl
  | cons bits rest ih =>
    have hlen : (bits :: rest).length = rest.length + 1 := rfl
    rw [sprite, if_neg (by simp [hd]), if_pos (by omega), ih (overflowed_row hd hx) (by omega),
      row_eq, marks, plotAll_append]

end Drawing

/-! ## How often a sprite falls on a pixel -/

/-- A sprite and the place of its top left corner. -/
structure Stamp where
  /-- The column of its left end. -/
  x : Nat
  /-- The row of its upper end. -/
  y : Nat
  /-- Its rows, from the top. -/
  rows : List UInt8

namespace Stamp

/-- The columns of the sprite, and the rows and the one below them, are in the range of
coordinates. -/
def InRange (s : Stamp) : Prop :=
  s.x + 7 < coordinateLimit ∧ s.y + s.rows.length < coordinateLimit

/-- How many set bits of a sprite fall on the pixel in column `a` and row `b`: the pairs of a row
and a column of the sprite where the bit is set and that the screen's wrapping takes there. -/
def hits (s : Stamp) (a b : Nat) : Nat :=
  Finset.card {place : Fin s.rows.length × Fin 8 | leadingBit s.rows[place.1] place.2 = true ∧
    (s.x + place.2) % 64 = a ∧ (s.y + place.1) % 32 = b}

variable {s : Stamp} {a b : Nat}

/-- A pixel is hit if some set bit falls on it. -/
theorem one_le_hits_iff :
    1 ≤ s.hits a b ↔ ∃ i, ∃ hi : i < s.rows.length, ∃ col < 8,
      leadingBit s.rows[i] col = true ∧ (s.x + col) % 64 = a ∧ (s.y + i) % 32 = b := by
  rw [hits, Nat.one_le_iff_ne_zero, ← Nat.pos_iff_ne_zero, card_pos]
  constructor
  · rintro ⟨⟨i, col⟩, h⟩
    exact ⟨i, i.isLt, col, col.isLt, (mem_filter.1 h).2⟩
  · rintro ⟨i, hi, col, hcol, h⟩
    exact ⟨(⟨i, hi⟩, ⟨col, hcol⟩), mem_filter.2 ⟨mem_univ _, h⟩⟩

/-- Only a sprite that is higher than the screen hits a pixel twice. -/
theorem lt_length_of_hits (h : 2 ≤ s.hits a b) : 32 < s.rows.length := by
  obtain ⟨⟨i, col⟩, hp, ⟨j, col'⟩, hq, hne⟩ := one_lt_card.1 h
  obtain ⟨-, -, hcol, hi⟩ := mem_filter.1 hp
  obtain ⟨-, -, hcol', hj⟩ := mem_filter.1 hq
  dsimp only at hcol hi hcol' hj
  have hc : col = col' := Fin.ext (by omega)
  have hr : i.val ≠ j.val := fun e => hne (Prod.ext (Fin.ext e) hc)
  have hin := i.isLt
  have hjn := j.isLt
  omega

/-- Counting below a number is adding up ones. -/
theorem countP_range (p : Nat → Bool) (n : Nat) :
    (List.range n).countP p = ∑ i : Fin n, if p i = true then 1 else 0 := by
  induction n with
  | zero => rfl
  | succ n ih =>
    rw [List.range_succ, List.countP_append, ih, Fin.sum_univ_castSucc, List.countP_singleton]
    rfl

/-- Counting set bits of a row is adding up ones over its columns. -/
theorem countP_rowColumns (p : Nat → Bool) : (rowColumns bits).countP p =
    ∑ col : Fin 8, if leadingBit bits col = true ∧ p col = true then 1 else 0 := by
  rw [rowColumns, List.countP_filter, countP_range]
  simp only [Bool.and_eq_true, and_comm]

/-- How often a row marks a pixel, as a sum over its columns. -/
theorem countP_rowMarks :
    (rowMarks x y bits).countP (onPixel a b) = ∑ col : Fin 8,
      if leadingBit bits col = true ∧ (x + col) % 64 = a ∧ y % 32 = b then 1 else 0 := by
  rw [rowMarks, List.countP_map, countP_rowColumns]
  simp only [Function.comp_apply, onPixel_iff]

/-- Its first row, and the rows below it. -/
theorem hits_cons {x y : Nat} {bits : UInt8} {rows : List UInt8} :
    hits ⟨x, y, bits :: rows⟩ a b =
      (rowMarks x y bits).countP (onPixel a b) + hits ⟨x, y + 1, rows⟩ a b := by
  unfold hits
  rw [countP_rowMarks, card_filter, Fintype.sum_prod_type, card_filter, Fintype.sum_prod_type]
  refine (Fin.sum_univ_succ _).trans (congrArg₂ _ rfl ?_)
  refine sum_congr rfl fun i _ => sum_congr rfl fun col _ => ?_
  have hbelow : y + (i.val + 1) = y + 1 + i.val := by omega
  simp only [Fin.val_succ, hbelow]
  rfl

/-- **A pixel is hit as often as a place of the sprite names it.** -/
theorem hits_eq (s : Stamp) (a b : Nat) :
    s.hits a b = (marks s.x s.y s.rows).countP (onPixel a b) := by
  obtain ⟨x, y, rows⟩ := s
  induction rows generalizing y with
  | nil => rfl
  | cons bits rest ih => rw [hits_cons, ih, marks, List.countP_append]

end Stamp

/-! ## Drawing sprites -/

namespace Frame

/-- A sprite is drawn in its place. -/
def stamp (f : Frame) (s : Stamp) : Drawing := f.drawSprite s.x s.y s.rows

/-- The frame after sprites are drawn on it, one after the other. -/
def stampAll (f : Frame) (stamps : List Stamp) : Frame :=
  stamps.foldl (fun f s => (f.stamp s).frame) f

variable {f : Frame} {s : Stamp} {stamps : List Stamp} {a b : Nat}

/-- A sprite in range is drawn by switching its places over. -/
theorem stamp_eq (h : s.InRange) :
    f.stamp s = Drawing.plotAll { frame := f } (marks s.x s.y s.rows) :=
  Drawing.sprite_eq rfl h.1 (Nat.le_of_lt h.2)

/-- A stamp in range has all its marks in range. -/
theorem fst_lt_of_inRange (h : s.InRange) :
    ∀ place ∈ marks s.x s.y s.rows, place.1 < coordinateLimit :=
  fun _ hp => Nat.lt_of_lt_of_le (fst_lt_of_mem_marks hp) h.1

/-- It is drawn to its end. -/
theorem overflowed_stamp (h : s.InRange) : (f.stamp s).overflowed = false := by
  rw [stamp_eq h]
  exact Drawing.overflowed_plotAll rfl (fst_lt_of_inRange h)

/-- It changes the pixels that it hits an odd number of times. -/
theorem lit_stamp (h : s.InRange) (ha : a < 64) (hb : b < 32) :
    (f.stamp s).frame.lit a b = (f.lit a b ^^ decide (s.hits a b % 2 = 1)) := by
  rw [stamp_eq h, Drawing.lit_plotAll rfl (fst_lt_of_inRange h) ha hb, Stamp.hits_eq]

/-- It darkens a pixel if it hits one that is lit, or hits one twice. -/
theorem erased_stamp (h : s.InRange) :
    (f.stamp s).erased = true ↔ ∃ a < 64, ∃ b < 32,
      (1 ≤ s.hits a b ∧ f.lit a b = true) ∨ 2 ≤ s.hits a b := by
  rw [stamp_eq h, Drawing.erased_plotAll rfl (fst_lt_of_inRange h)]
  simp only [Bool.false_eq_true, false_or, Darkens, Stamp.hits_eq]

/-- Sprites change the pixels that they hit an odd number of times altogether. -/
theorem lit_stampAll (h : ∀ s ∈ stamps, s.InRange) (ha : a < 64) (hb : b < 32) :
    (f.stampAll stamps).lit a b =
      (f.lit a b ^^ decide ((stamps.map (·.hits a b)).sum % 2 = 1)) := by
  induction stamps generalizing f with
  | nil => simp [stampAll]
  | cons s rest ih =>
    have hrest : (f.stampAll (s :: rest)).lit a b = ((f.stamp s).frame.stampAll rest).lit a b := rfl
    rw [hrest, ih fun t ht => h t (List.mem_cons_of_mem _ ht),
      lit_stamp (h s List.mem_cons_self) ha hb, Bool.xor_assoc, List.map_cons, List.sum_cons]
    exact congrArg _ (decide_odd_add _ _).symm

/-- **Sprites are drawn by exclusive or on the torus.** Whatever sprites are drawn on whatever
frame, as long as their coordinates are in range, each pixel afterwards is what it was before,
changed once for every set bit that has fallen on it; so the order in which they are drawn does not
matter. Drawing one of them reports that a pixel was switched off exactly if it hit a pixel that was
lit at that time, or hit a pixel twice, and for the latter it has to be higher than the screen. -/
theorem sprites_xor_on_torus (f : Frame) (stamps : List Stamp) (h : ∀ s ∈ stamps, s.InRange) :
    (∀ a < 64, ∀ b < 32, (f.stampAll stamps).lit a b =
      (f.lit a b ^^ decide ((stamps.map (·.hits a b)).sum % 2 = 1))) ∧
    (∀ others, others.Perm stamps → f.stampAll others = f.stampAll stamps) ∧
    (∀ j (hj : j < stamps.length),
      let before := f.stampAll (stamps.take j)
      (before.stamp stamps[j]).overflowed = false ∧
      ((before.stamp stamps[j]).erased = true ↔
        (∃ a < 64, ∃ b < 32, 1 ≤ stamps[j].hits a b ∧ before.lit a b = true) ∨
          ∃ a < 64, ∃ b < 32, 2 ≤ stamps[j].hits a b)) ∧
    ∀ s ∈ stamps, ∀ a b, 2 ≤ s.hits a b → 32 < s.rows.length := by
  refine ⟨fun a ha b hb => lit_stampAll h ha hb, ?_, ?_, fun s _ a b => Stamp.lt_length_of_hits⟩
  · intro others hperm
    apply ext_lit
    intro a ha b hb
    have hothers : ∀ s ∈ others, s.InRange := fun s hs => h s (hperm.mem_iff.1 hs)
    rw [lit_stampAll hothers ha hb, lit_stampAll h ha hb, (hperm.map _).sum_eq]
  · intro j hj before
    have hj' : stamps[j].InRange := h _ (List.getElem_mem hj)
    refine ⟨overflowed_stamp hj', (erased_stamp hj').trans ?_⟩
    simp only [and_or_left, exists_or]

/-- A line of 33 dots, one more than the screen is high, meets itself in its first dot: that one is
switched off again, and the others stay. -/
theorem sprites_xor_on_torus_line :
    ∃ line : Stamp, line.rows = List.replicate 33 0x80 ∧ (∀ s ∈ [line], s.InRange) ∧
      (blank.stamp line).erased = true ∧ (blank.stampAll [line]).lit 0 0 = false ∧
      (blank.stampAll [line]).lit 0 1 = true := by
  have hrange : ∀ s ∈ [Stamp.mk 0 0 (List.replicate 33 0x80)], s.InRange := by
    intro s hs
    rw [List.mem_singleton.1 hs]
    exact ⟨by decide, by decide⟩
  have hfirst : Stamp.hits ⟨0, 0, List.replicate 33 0x80⟩ 0 0 = 2 := by rw [Stamp.hits_eq]; rfl
  have hsecond : Stamp.hits ⟨0, 0, List.replicate 33 0x80⟩ 0 1 = 1 := by rw [Stamp.hits_eq]; rfl
  obtain ⟨hlit, -, hcalls, -⟩ := sprites_xor_on_torus blank _ hrange
  refine ⟨⟨0, 0, List.replicate 33 0x80⟩, rfl, hrange, ?_, ?_, ?_⟩
  · exact (hcalls 0 (by decide)).2.2 (.inr ⟨0, by decide, 0, by decide, hfirst.ge⟩)
  · rw [hlit 0 (by decide) 0 (by decide), List.map_singleton, List.sum_singleton, hfirst, lit_blank]
    rfl
  · rw [hlit 0 (by decide) 1 (by decide), List.map_singleton, List.sum_singleton, hsecond,
      lit_blank]
    rfl

end Frame

end Chip8
