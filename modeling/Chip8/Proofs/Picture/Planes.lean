import Chip8.Picture.Resolution
import Mathlib.Data.List.Nodup
import Mathlib.Data.List.Range

/-!
# What a bit plane holds

A bit plane is read off from the last pixel to the first. The theory says which places it lists,
without any order of reading.

* `Shows data bit k`: the bit of pixel number `k` is `bit`, by arithmetic on the byte.
* `numbers r data bit` are the pixels that show a bit, from the last to the first; `plane_eq` says
  that the plane consists of their places when the data reaches far enough, and `plane_eq_none` that
  it is undefined otherwise. So no screen without columns is ever asked for a place.
* `place_injective`: no two pixels have the same place.
* `plane_lists_pixels` puts this together for all sizes, data and bits.
-/

namespace Chip8.Resolution

/-- The data holds `bit` for pixel number `k`, eight pixels to a byte, the most significant bit
first. -/
def Shows (data : List UInt8) (bit : UInt8) (k : Nat) : Prop :=
  ∃ byte, data[k / 8]? = some byte ∧ (byte.toNat >>> (7 - k % 8)) % 2 = bit.toNat

variable {r : Resolution} {data : List UInt8} {bit : UInt8} {k : Nat}

/-! ## One pixel -/

/-- One bit of a byte by arithmetic, -/
theorem leadingBit_eq_decide (byte : UInt8) (k : Nat) :
    leadingBit byte k = decide ((byte.toNat >>> (7 - k)) % 2 = 1) := by
  rw [leadingBit, Nat.testBit_eq_decide_div_mod_eq, Nat.shiftRight_eq_div_pow]

/-- and as a number. -/
theorem ite_leadingBit_eq_iff {byte : UInt8} :
    (if leadingBit byte k = true then 1 else 0) = bit ↔
      (byte.toNat >>> (7 - k)) % 2 = bit.toNat := by
  rw [leadingBit_eq_decide, ← UInt8.toNat_inj]
  rcases Nat.mod_two_eq_zero_or_one (byte.toNat >>> (7 - k)) with h | h <;> simp [h]

/-- A bit is read off the data where the data shows it. -/
theorem bit?_eq_some_iff : bit? data.toArray k = some bit ↔ Shows data bit k := by
  rw [bit?, List.getElem?_toArray, Option.map_eq_some_iff]
  simp only [ite_leadingBit_eq_iff, Shows]

instance : DecidablePred (Shows data bit) := fun _ => decidable_of_iff _ bit?_eq_some_iff

/-- Data that is long enough has a bit for the pixel, -/
theorem exists_bit? (h : k < 8 * data.length) : ∃ b, bit? data.toArray k = some b := by
  have hk : k / 8 < data.length := by omega
  rw [bit?, List.getElem?_toArray, List.getElem?_eq_getElem hk]
  exact ⟨_, rfl⟩

/-- and other data has none. -/
theorem bit?_eq_none (h : 8 * data.length ≤ k) : bit? data.toArray k = none := by
  have hk : data.length ≤ k / 8 := by omega
  rw [bit?, List.getElem?_toArray, List.getElem?_eq_none hk]
  rfl

/-- A pixel shows zero or one. -/
theorem shows_zero_or_one (h : Shows data bit k) : bit = 0 ∨ bit = 1 := by
  obtain ⟨byte, -, hbit⟩ := h
  rw [← UInt8.toNat_inj, ← UInt8.toNat_inj]
  have h0 : (0 : UInt8).toNat = 0 := rfl
  have h1 : (1 : UInt8).toNat = 1 := rfl
  omega

/-- A pixel that the data reaches shows one exactly if it does not show zero. -/
theorem shows_one_iff (h : k < 8 * data.length) : Shows data 1 k ↔ ¬ Shows data 0 k := by
  obtain ⟨b, hb⟩ := exists_bit? h
  simp only [← bit?_eq_some_iff, hb, Option.some.injEq]
  rcases shows_zero_or_one (bit?_eq_some_iff.1 hb) with rfl | rfl <;> decide

/-! ## The plane -/

/-- The numbers of the pixels that show a bit, from the last to the first. -/
def numbers (r : Resolution) (data : List UInt8) (bit : UInt8) : List Nat :=
  (List.range r.pixels).reverse.filter (Shows data bit)

/-- The numbers of a bit are those of the pixels that show it. -/
theorem mem_numbers : k ∈ r.numbers data bit ↔ k < r.pixels ∧ Shows data bit k := by
  simp [numbers]

/-- They come in decreasing order. -/
theorem pairwise_numbers (r : Resolution) (data : List UInt8) (bit : UInt8) :
    (r.numbers data bit).Pairwise (· > ·) := by
  refine List.Pairwise.filter _ (List.pairwise_reverse.2 ?_)
  exact List.pairwise_lt_range

/-- A screen with pixels has columns. -/
theorem width_ne_zero (h : k < r.pixels) : r.width ≠ 0 := by
  intro h0
  rw [pixels, h0, Nat.zero_mul] at h
  exact Nat.not_lt_zero k h

/-- If the data reaches the pixels below a number, their plane consists of the places of those that
show the bit. -/
theorem planeBelow_eq (hk : k ≤ r.pixels) (h : k ≤ 8 * data.length) :
    r.planeBelow data.toArray bit k =
      some (((List.range k).reverse.filter (Shows data bit)).map r.place) := by
  induction k with
  | zero => rfl
  | succ k ih =>
    obtain ⟨b, hb⟩ : ∃ b, bit? data.toArray k = some b := exists_bit? h
    have hplace : r.place? k = some (r.place k) := if_neg (width_ne_zero hk)
    have hrest := ih (Nat.le_of_lt hk) (Nat.le_of_lt h)
    have hshows : Shows data bit k ↔ b = bit := by
      rw [← bit?_eq_some_iff, hb, Option.some.injEq]
    rw [planeBelow, hb, List.range_succ, List.reverse_append, List.reverse_singleton,
      List.singleton_append]
    by_cases hbit : b = bit
    · rw [List.filter_cons, if_pos (decide_eq_true (hshows.2 hbit)), List.map_cons]
      simp only [if_pos hbit, hplace, hrest, Option.map_some]
    · rw [List.filter_cons, if_neg (by simp [hshows, hbit])]
      simp only [if_neg hbit, hrest]

/-- **A plane consists of the places of the pixels that show the bit**, from the last to the
first. -/
theorem plane_eq (h : r.pixels ≤ 8 * data.length) :
    r.plane data bit = some ((r.numbers data bit).map r.place) :=
  planeBelow_eq (Nat.le_refl _) h

/-- Where the last pixel lies past the data there is no plane. -/
theorem plane_eq_none (h : 8 * data.length < r.pixels) : r.plane data bit = none := by
  obtain ⟨k, hk⟩ : ∃ k, r.pixels = k + 1 := Nat.exists_eq_succ_of_ne_zero (by omega)
  rw [plane, hk, planeBelow, bit?_eq_none (by omega)]

/-- A plane is undefined if there are more pixels than bits. -/
theorem plane_eq_none_iff : r.plane data bit = none ↔ 8 * data.length < r.pixels := by
  refine ⟨fun hnone => Nat.lt_of_not_le fun hle => ?_, plane_eq_none⟩
  rw [plane_eq hle] at hnone
  cases hnone

/-! ## Places -/

/-- No two pixels have the same place. -/
theorem place_injective (r : Resolution) : Function.Injective r.place := by
  intro k j h
  obtain ⟨hcol, hrow⟩ := Prod.mk.inj h
  have hcol' : k % r.width = j % r.width := Int.ofNat.inj hcol
  have hrow' : k / r.width = j / r.width := Int.ofNat.inj (Int.neg_inj.1 hrow)
  rw [← Nat.div_add_mod k r.width, ← Nat.div_add_mod j r.width, hcol', hrow']

/-- No pixel has its place listed twice. -/
theorem nodup_places (r : Resolution) (data : List UInt8) (bit : UInt8) :
    ((r.numbers data bit).map r.place).Nodup := by
  refine List.Nodup.map r.place_injective ?_
  exact (r.pairwise_numbers data bit).imp fun h => Nat.ne_of_gt h

/-- Every pixel that the data reaches is in one of the two planes, and in one only. -/
theorem numbers_append_perm (h : r.pixels ≤ 8 * data.length) :
    (r.numbers data 0 ++ r.numbers data 1).Perm (List.range r.pixels) := by
  have hone : r.numbers data 1 =
      (List.range r.pixels).reverse.filter fun k => !decide (Shows data 0 k) := by
    refine List.filter_congr fun k hk => ?_
    have hlt : k < 8 * data.length :=
      Nat.lt_of_lt_of_le (List.mem_range.1 (List.mem_reverse.1 hk)) h
    rw [decide_eq_decide.2 (shows_one_iff hlt), decide_not]
  rw [hone]
  exact (List.filter_append_perm _ _).trans (List.reverse_perm _)

/-- No pixel shows anything but zero and one. -/
theorem numbers_eq_nil (h0 : bit ≠ 0) (h1 : bit ≠ 1) : r.numbers data bit = [] := by
  refine List.filter_eq_nil_iff.2 fun k _ hshows => ?_
  rcases shows_zero_or_one (of_decide_eq_true hshows) with rfl | rfl
  · exact h0 rfl
  · exact h1 rfl

/-- **Bit planes.** A plane is undefined exactly if the screen has more pixels than the data has
bits, whatever bit is looked for; so the division by the width never fails. Otherwise it lists, in
decreasing order of their numbers and each once, the places of exactly those pixels that show the
bit. The planes for zero and one share the pixels out between them, and any other bit has none. A
screen without columns or rows has none for any data. Data of as many bytes as the pixels fill up is
long enough exactly if they fill them up without remainder. -/
theorem plane_lists_pixels (r : Resolution) (data : List UInt8) :
    (∀ bit, r.plane data bit = none ↔ 8 * data.length < r.pixels) ∧
    (r.pixels ≤ 8 * data.length →
      (∀ bit, ∃ (ks : List Nat) (places : List (Int × Int)),
        r.plane data bit = some places ∧
        places = ks.map (fun k => (((k % r.width : Nat) : Int), -((k / r.width : Nat) : Int))) ∧
        ks.Pairwise (· > ·) ∧ (∀ k, k ∈ ks ↔ k < r.pixels ∧ Shows data bit k) ∧ places.Nodup) ∧
      (∃ dark lit, r.plane data 0 = some dark ∧ r.plane data 1 = some lit ∧
        (dark ++ lit).Perm ((List.range r.pixels).map r.place) ∧ (dark ++ lit).Nodup) ∧
      ∀ bit, bit ≠ 0 → bit ≠ 1 → r.plane data bit = some []) ∧
    (r.width = 0 ∨ r.height = 0 → ∀ bit, r.plane data bit = some []) ∧
    (data.length = r.bytes → ∀ bit, (r.plane data bit).isSome = true ↔ 8 ∣ r.pixels) := by
  refine ⟨fun bit => plane_eq_none_iff, fun h => ⟨?_, ?_, ?_⟩, ?_, ?_⟩
  · intro bit
    exact ⟨r.numbers data bit, _, plane_eq h, rfl, r.pairwise_numbers data bit,
      fun k => mem_numbers, r.nodup_places data bit⟩
  · have hperm := (numbers_append_perm h).map r.place
    rw [List.map_append] at hperm
    refine ⟨_, _, plane_eq h, plane_eq h, hperm, hperm.nodup_iff.2 ?_⟩
    exact List.nodup_range.map r.place_injective
  · intro bit h0 h1
    rw [plane_eq h, numbers_eq_nil h0 h1]
    rfl
  · intro hempty bit
    have hzero : r.pixels = 0 := Nat.mul_eq_zero.2 hempty
    rw [plane, hzero]
    rfl
  · intro hlen bit
    rw [← Option.ne_none_iff_isSome, ne_eq, plane_eq_none_iff, hlen, bytes]
    omega

/-- Two rows of three pixels. -/
example : plane ⟨3, 2⟩ [0xA4] 1 = some [(2, -1), (2, 0), (0, 0)] := by decide

end Chip8.Resolution
