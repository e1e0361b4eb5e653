import Chip8.Proofs.Pacing.Conservation

/-!
# A pacer keeps its rate

The period of a rate is a whole number of nanoseconds, rounded down, so that a pacer does not hit its
rate exactly. It is never too slow: in any time there are as many events as the rate asks for. It is
too fast by what is rounded off, which is less than a nanosecond for each event of a second. As periods
are taken out of all the time that counts, and not out of each advance anew, that is a fixed share of
the rate and does not add up to more in a longer run.

* `le_period_mul` is the error of the period.
* `le_div_period` and `div_period_mul_le` bound a number of whole periods by the rate from both sides.
* `excess_lt`: for the rates that are supported the share is below 0.11%.
* `keeps_rate` puts them together, for cycles and for ticks.
-/

namespace Chip8.Pacer

/-! ## Periods that are rounded down -/

/-- The periods of a second are shorter than it by less than a nanosecond each. -/
theorem le_period_mul {rate : Nat} (pos : 0 < rate) (fits : rate ≤ second) :
    second - rate + 1 ≤ second / rate * rate := by
  have hrest : second < second / rate * rate + rate := Nat.lt_div_mul_add pos
  omega

/-- **Never too slow**: a time has at least as many whole periods as the rate asks for. -/
theorem le_div_period (rate : Nat) (pos : 0 < rate) (fits : rate ≤ second) (time : Nat) :
    time * rate / second ≤ time / (second / rate) := by
  have hperiod : 0 < second / rate := Nat.div_pos fits pos
  rw [Nat.le_div_iff_mul_le hperiod]
  refine Nat.le_of_mul_le_mul_right ?_ pos
  calc time * rate / second * (second / rate) * rate
    _ = time * rate / second * (second / rate * rate) := Nat.mul_assoc _ _ _
    _ ≤ time * rate / second * second := Nat.mul_le_mul_left _ (Nat.div_mul_le_self second rate)
    _ ≤ time * rate := Nat.div_mul_le_self _ _

/-- **Hardly too fast**: the whole periods of a time fit into it, each as long as it is. -/
theorem div_period_mul_le (rate time : Nat) :
    time / (second / rate) * (second / rate * rate) ≤ time * rate := by
  rw [← Nat.mul_assoc]
  exact Nat.mul_le_mul_right rate (Nat.div_mul_le_self time _)

/-- Of the supported rates none is exceeded by as much as eleven in ten thousand. -/
theorem excess_lt {rate count wanted : Nat} (high : rate ≤ 1000000)
    (h : count * (1000000000 - rate + 1) ≤ wanted) (pos : 0 < wanted) :
    count * 1000000000 * 10000 < wanted * 10011 := by
  have hshare : 1000000000 * 10000 < (1000000000 - rate + 1) * 10011 := by omega
  rcases Nat.eq_zero_or_pos count with rfl | hcount
  · omega
  · calc count * 1000000000 * 10000
      _ = count * (1000000000 * 10000) := Nat.mul_assoc _ _ _
      _ < count * ((1000000000 - rate + 1) * 10011) := Nat.mul_lt_mul_of_pos_left hshare hcount
      _ = count * (1000000000 - rate + 1) * 10011 := (Nat.mul_assoc _ _ _).symm
      _ ≤ wanted * 10011 := Nat.mul_le_mul_right _ h

/-- **A pacer keeps its rate** over any sequence of advances, however long. The cycles that it hands
out are at least those that its rate asks for in the time that counts, and they are more only by the
share that is rounded off the period, which is below 0.11%. The ticks are so for sixty a second, with a
share of forty in a thousand million. -/
theorem keeps_rate {rate : Nat} (low : 1 ≤ rate) (high : rate ≤ 1000000) (times : List Nat) :
    ∃ p, ofRate rate = .ok p ∧
      counted times * rate / 1000000000 ≤ p.cyclesIn times ∧
      p.cyclesIn times * (1000000000 - rate + 1) ≤ counted times * rate ∧
      (0 < counted times →
        p.cyclesIn times * 1000000000 * 10000 < counted times * rate * 10011) ∧
      60 * counted times / 1000000000 ≤ p.ticksIn times ∧
      p.ticksIn times * (1000000000 - 40) ≤ 60 * counted times := by
  have hp := ofRate_eq_ok low high
  have hcycles := (steady_ofRate hp).cyclesIn_eq times
  have hticks := (steady_ofRate hp).ticksIn_eq times
  simp only [Nat.zero_add] at hcycles hticks
  have hfits : rate ≤ second := Nat.le_trans high (by decide)
  have hfast : counted times / (second / rate) * (1000000000 - rate + 1) ≤ counted times * rate :=
    Nat.le_trans (Nat.mul_le_mul_left _ (le_period_mul low hfits)) (div_period_mul_le rate _)
  rw [Nat.mul_comm 60]
  refine ⟨_, hp, ?_, ?_, ?_, ?_, ?_⟩
  · rw [hcycles]
    exact le_div_period rate low hfits _
  · rw [hcycles]
    exact hfast
  · intro hpos
    rw [hcycles]
    exact excess_lt high hfast (Nat.mul_pos hpos low)
  · rw [hticks]
    exact le_div_period 60 (by decide) (by decide) _
  · rw [hticks]
    exact div_period_mul_le 60 _

/-- At 999999 cycles a second half a second has one cycle more than that rate asks for. -/
theorem keeps_rate_999999 :
    (1 ≤ 999999 ∧ 999999 ≤ 1000000) ∧ counted [250000000, 300000000, 1] = 500000001 ∧
      ∃ p, ofRate 999999 = .ok p ∧ p.cyclesIn [250000000, 300000000, 1] = 500000 ∧
        500000001 * 999999 / 1000000000 = 499999 ∧
        p.cyclesIn [250000000, 300000000, 1] * 999000002 ≤ 500000001 * 999999 := by
  have low : 1 ≤ 999999 := by decide
  have high : 999999 ≤ 1000000 := by decide
  have hcounted : counted [250000000, 300000000, 1] = 500000001 := by decide
  obtain ⟨p, hp, -, hfast, -⟩ := keeps_rate low high [250000000, 300000000, 1]
  rw [hcounted] at hfast
  have hcycles : p.cyclesIn [250000000, 300000000, 1] = 500000 := by
    cases (ofRate_eq_ok low high).symm.trans hp
    decide
  exact ⟨⟨low, high⟩, hcounted, p, hp, hcycles, by decide, hfast⟩

end Chip8.Pacer
