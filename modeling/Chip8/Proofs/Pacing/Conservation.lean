import Chip8.Pacing.Pacer
import Mathlib.Algebra.Ring.Nat

/-!
# A pacer loses no time

A pacer hands out whole periods and keeps the remainder as a debt. So however passed time is cut
into advances, the work handed out in the end is the number of whole periods in all of it, and the
debt is what is left over. Only what lies beyond a quarter of a second in one advance is dropped.

* `Pacer.counted times` is the time of a sequence of advances that counts.
* `Pacer.Steady` is what every pacer in use satisfies: neither debt has reached its period.
* `advance_steady` says what one advance does: it divides with remainder. The count is small, so
  that nothing is cut off where it becomes a number of 32 bits (`exact_of_steady`).
* `sum_cycles`, `sum_ticks` and `afterAll_eq` are the inductions over the advances.
* `conserves_time` puts them together.
-/

namespace Chip8

/-- The part of some passed time that counts: a quarter of a second at most. -/
def Pacer.caughtUp (elapsed : Nat) : Nat := min elapsed 250000000

/-- The part of several passed times that counts. -/
def Pacer.counted (times : List Nat) : Nat := (times.map caughtUp).sum

/-- The shortest time that is too long for a duration, which has seconds of 64 bits. -/
def durationLimit : Nat := 2 ^ 64 * second

namespace Pacer

/-- The pacer after a sequence of advances. -/
def afterAll (p : Pacer) (times : List Nat) : Pacer :=
  times.foldl (fun p elapsed => (p.advance elapsed).2) p

/-- What each advance of a sequence hands out. -/
def dues (p : Pacer) : List Nat → List Due
  | [] => []
  | elapsed :: rest => (p.advance elapsed).1 :: (p.advance elapsed).2.dues rest

/-- The cycles that a sequence of advances hands out. -/
def cyclesIn (p : Pacer) (times : List Nat) : Nat := ((p.dues times).map Due.cycles).sum

/-- The ticks that it hands out. -/
def ticksIn (p : Pacer) (times : List Nat) : Nat := ((p.dues times).map Due.ticks).sum

/-- An advance stays within the range of its numbers: no division by zero, no sum or product of
durations that is too long, no difference below zero, and no count cut off at 32 bits. -/
structure Exact (p : Pacer) (elapsed : Nat) : Prop where
  /-- There is a period to divide by. -/
  period : 0 < p.cyclePeriod
  /-- The debts, with the time that has passed, are durations. -/
  debts : p.cycleDebt + caughtUp elapsed < durationLimit ∧
    p.tickDebt + caughtUp elapsed < durationLimit
  /-- The numbers of whole periods are numbers of 32 bits. -/
  counts : (p.cycleDebt + caughtUp elapsed) / p.cyclePeriod < 2 ^ 32 ∧
    (p.tickDebt + caughtUp elapsed) / tickPeriod < 2 ^ 32
  /-- They are what is handed out. -/
  cycles : (p.advance elapsed).1.cycles = (p.cycleDebt + caughtUp elapsed) / p.cyclePeriod
  ticks : (p.advance elapsed).1.ticks = (p.tickDebt + caughtUp elapsed) / tickPeriod
  /-- What is taken out of a debt is in it. -/
  taken : p.cyclePeriod * (p.advance elapsed).1.cycles ≤ p.cycleDebt + caughtUp elapsed ∧
    tickPeriod * (p.advance elapsed).1.ticks ≤ p.tickDebt + caughtUp elapsed

/-- A pacer for a supported rate, neither of whose debts has reached its period. -/
structure Steady (p : Pacer) : Prop where
  period_ge : 1000 ≤ p.cyclePeriod
  period_le : p.cyclePeriod ≤ second
  cycleDebt : p.cycleDebt < p.cyclePeriod
  tickDebt : p.tickDebt < tickPeriod

variable {p q : Pacer}

/-! ## One advance -/

/-- No more than a quarter of a second is caught up on. -/
theorem caughtUp_le (elapsed : Nat) : caughtUp elapsed ≤ 250000000 := Nat.min_le_right _ _

/-- A new pacer owes nothing yet. -/
theorem steady_ofRate {rate : Nat} (h : ofRate rate = .ok p) : p.Steady := by
  unfold ofRate at h
  split at h
  · rename_i hrate
    obtain ⟨low, high⟩ : 1 ≤ rate ∧ rate ≤ 1000000 := hrate
    have hge : 1000 ≤ second / rate := (Nat.le_div_iff_mul_le low).2 (Nat.mul_le_mul_left 1000 high)
    have hle : second / rate ≤ second := Nat.div_le_self second rate
    cases h
    have htick : 0 < tickPeriod := by decide
    exact ⟨hge, hle, Nat.lt_of_lt_of_le (Nat.succ_pos 999) hge, htick⟩
  · cases h

/-- A number of whole periods that fits in 32 bits is not cut off. -/
theorem wholePeriods_eq {debt period : Nat} (h : debt / period < 2 ^ 32) :
    wholePeriods debt period = debt / period :=
  Nat.mod_eq_of_lt h

/-- A debt below its period, with the time that counts, has few periods. -/
theorem div_caughtUp_lt {debt period : Nat} (hperiod : 1000 ≤ period) (hdebt : debt < period)
    (elapsed : Nat) : (debt + caughtUp elapsed) / period < 2 ^ 32 := by
  have hle := caughtUp_le elapsed
  rw [Nat.div_lt_iff_lt_mul (by omega)]
  calc debt + caughtUp elapsed
    _ < period + 1000 * 250000 := by omega
    _ ≤ period + period * 250000 := Nat.add_le_add_left (Nat.mul_le_mul_right _ hperiod) _
    _ ≤ 2 ^ 32 * period := by omega

/-- **An advance divides with remainder**: whole periods are handed out, and the rest is owed. -/
theorem Steady.advance_eq (h : p.Steady) (elapsed : Nat) :
    p.advance elapsed =
      (⟨(p.cycleDebt + caughtUp elapsed) / p.cyclePeriod, (p.tickDebt + caughtUp elapsed) / tickPeriod⟩,
        ⟨p.cyclePeriod, (p.cycleDebt + caughtUp elapsed) % p.cyclePeriod,
          (p.tickDebt + caughtUp elapsed) % tickPeriod⟩) := by
  have hcycles := wholePeriods_eq (div_caughtUp_lt h.period_ge h.cycleDebt elapsed)
  have hticks := wholePeriods_eq (div_caughtUp_lt (by decide : 1000 ≤ tickPeriod) h.tickDebt elapsed)
  have hlimit : min elapsed catchUpLimit = caughtUp elapsed := rfl
  simp only [advance, hlimit, hcycles, hticks, Nat.mod_eq_sub_mul_div]

/-- An advance leaves the debts below their periods. -/
theorem Steady.advance (h : p.Steady) (elapsed : Nat) : (p.advance elapsed).2.Steady := by
  have hge := h.period_ge
  rw [h.advance_eq]
  exact ⟨hge, h.period_le, Nat.mod_lt _ (by omega), Nat.mod_lt _ (by decide)⟩

/-- No number of an advance is out of its range. -/
theorem Steady.exact (h : p.Steady) (elapsed : Nat) : p.Exact elapsed := by
  have hge := h.period_ge
  have hle := h.period_le
  have hcycle := h.cycleDebt
  have htick := h.tickDebt
  have hcount := caughtUp_le elapsed
  have hlimit : second + tickPeriod + 250000000 < durationLimit := by decide
  refine ⟨by omega, ⟨by omega, by omega⟩, ?_, ?_, ?_, ?_⟩
  · exact ⟨div_caughtUp_lt hge hcycle elapsed, div_caughtUp_lt (by decide) htick elapsed⟩
  · rw [h.advance_eq]
  · rw [h.advance_eq]
  · rw [h.advance_eq]
    exact ⟨Nat.mul_div_le _ _, Nat.mul_div_le _ _⟩

/-! ## A sequence of advances -/

/-- Without steps no time is counted. -/
@[simp] theorem counted_nil : counted [] = 0 := rfl

/-- Each step counts the time that it catches up on. -/
@[simp] theorem counted_cons (elapsed : Nat) (times : List Nat) :
    counted (elapsed :: times) = caughtUp elapsed + counted times := by simp [counted]

/-- The first step is taken first. -/
@[simp] theorem afterAll_cons (elapsed : Nat) (times : List Nat) :
    p.afterAll (elapsed :: times) = (p.advance elapsed).2.afterAll times := rfl

/-- A pacer stays steady, however time passes. -/
theorem Steady.afterAll (h : p.Steady) (times : List Nat) : (p.afterAll times).Steady := by
  induction times generalizing p with
  | nil => exact h
  | cons elapsed rest ih => exact ih (h.advance elapsed)

/-- Periods taken out of a first stretch of time, and then out of its remainder and a second
stretch, are those of both stretches together. -/
theorem div_add_mod_div (a b period : Nat) :
    a / period + (a % period + b) / period = (a + b) / period := by
  rcases Nat.eq_zero_or_pos period with rfl | hpos
  · simp
  · calc a / period + (a % period + b) / period
      _ = (period * (a / period) + (a % period + b)) / period := (Nat.mul_add_div hpos _ _).symm
      _ = (a + b) / period := by rw [← Nat.add_assoc, Nat.div_add_mod]

/-- **The cycles of all advances** are the whole periods in the time that counts. -/
theorem Steady.cyclesIn_eq (h : p.Steady) (times : List Nat) :
    p.cyclesIn times = (p.cycleDebt + counted times) / p.cyclePeriod := by
  induction times generalizing p with
  | nil =>
    rw [counted_nil, Nat.add_zero, Nat.div_eq_of_lt h.cycleDebt]
    rfl
  | cons elapsed rest ih =>
    have hsplit : p.cyclesIn (elapsed :: rest) =
        (p.advance elapsed).1.cycles + (p.advance elapsed).2.cyclesIn rest := rfl
    rw [hsplit, ih (h.advance elapsed), h.advance_eq, div_add_mod_div, counted_cons, Nat.add_assoc]

/-- **The ticks of all advances** are, too. -/
theorem Steady.ticksIn_eq (h : p.Steady) (times : List Nat) :
    p.ticksIn times = (p.tickDebt + counted times) / tickPeriod := by
  induction times generalizing p with
  | nil =>
    rw [counted_nil, Nat.add_zero, Nat.div_eq_of_lt h.tickDebt]
    rfl
  | cons elapsed rest ih =>
    have hsplit : p.ticksIn (elapsed :: rest) =
        (p.advance elapsed).1.ticks + (p.advance elapsed).2.ticksIn rest := rfl
    rw [hsplit, ih (h.advance elapsed), h.advance_eq, div_add_mod_div, counted_cons, Nat.add_assoc]

/-- **The debts after all advances** are what is left of the time that counts. -/
theorem Steady.afterAll_eq (h : p.Steady) (times : List Nat) :
    p.afterAll times = ⟨p.cyclePeriod, (p.cycleDebt + counted times) % p.cyclePeriod,
      (p.tickDebt + counted times) % tickPeriod⟩ := by
  induction times generalizing p with
  | nil =>
    rw [counted_nil, Nat.add_zero, Nat.add_zero, Nat.mod_eq_of_lt h.cycleDebt,
      Nat.mod_eq_of_lt h.tickDebt]
    rfl
  | cons elapsed rest ih =>
    rw [afterAll_cons, ih (h.advance elapsed), h.advance_eq, counted_cons]
    simp only [Nat.mod_add_mod, Nat.add_assoc]

/-- Pacers with the same debt of ticks hand out the same ticks, whatever their rates. -/
theorem Steady.ticks_eq (hp : p.Steady) (hq : q.Steady) (h : p.tickDebt = q.tickDebt)
    (times : List Nat) : (p.dues times).map Due.ticks = (q.dues times).map Due.ticks := by
  induction times generalizing p q with
  | nil => rfl
  | cons elapsed rest ih =>
    have hdebt : (p.advance elapsed).2.tickDebt = (q.advance elapsed).2.tickDebt := by
      rw [hp.advance_eq, hq.advance_eq, h]
    have hticks : (p.advance elapsed).1.ticks = (q.advance elapsed).1.ticks := by
      rw [hp.advance_eq, hq.advance_eq, h]
    simp only [dues, List.map_cons, hticks, ih (hp.advance elapsed) (hq.advance elapsed) hdebt]

/-- **A pacer loses no time and counts none twice.** The advances of a new pacer hand out, taken
together, as many cycles and as many ticks as there are whole periods in the time that counts, and
the debts are the remainders. Every advance stays within the range of its numbers. So it does not
matter how the same time is cut into advances, and the ticks are the same at every rate. -/
theorem conserves_time {rate : Nat} (low : 1 ≤ rate) (high : rate ≤ 1000000) (times : List Nat) :
    ∃ p, ofRate rate = .ok p ∧
      p.cyclesIn times = counted times / (1000000000 / rate) ∧
      p.ticksIn times = counted times / 16666666 ∧
      (p.afterAll times).cycleDebt = counted times % (1000000000 / rate) ∧
      (p.afterAll times).tickDebt = counted times % 16666666 ∧
      (∀ before elapsed, before ++ [elapsed] <+: times → (p.afterAll before).Exact elapsed) ∧
      (∀ times', counted times' = counted times →
        p.cyclesIn times' = p.cyclesIn times ∧ p.ticksIn times' = p.ticksIn times ∧
          p.afterAll times' = p.afterAll times) ∧
      ∀ rate' q, ofRate rate' = .ok q →
        (q.dues times).map Due.ticks = (p.dues times).map Due.ticks := by
  have hp := ofRate_eq_ok low high
  have hsteady := steady_ofRate hp
  have hcycles := hsteady.cyclesIn_eq
  have hticks := hsteady.ticksIn_eq
  have hafter := hsteady.afterAll_eq
  simp only [Nat.zero_add] at hcycles hticks hafter
  refine ⟨_, hp, hcycles times, hticks times, ?_, ?_, ?_, ?_, ?_⟩
  · rw [hafter]
    rfl
  · rw [hafter]
    rfl
  · intro before elapsed _
    exact (hsteady.afterAll before).exact elapsed
  · intro times' hcounted
    simp only [hcycles, hticks, hafter, hcounted, and_self]
  · intro rate' q hq
    have hnew : q.tickDebt = 0 := by
      unfold ofRate at hq
      split at hq <;> cases hq
      rfl
    exact (steady_ofRate hq).ticks_eq hsteady hnew times

/-- At 700 cycles a second, a long stall, the time of one cycle and nearly that of one tick. -/
theorem conserves_time_700 :
    (1 ≤ 700 ∧ 700 ≤ 1000000) ∧ counted [5000000000, 1428571, 16666665] = 268095236 ∧
      ∃ p, ofRate 700 = .ok p ∧
        p.cyclesIn [5000000000, 1428571, 16666665] = 187 ∧
        p.ticksIn [5000000000, 1428571, 16666665] = 16 ∧
        (p.afterAll [5000000000, 1428571, 16666665]).cycleDebt = 952459 ∧
        (p.afterAll [5000000000, 1428571, 16666665]).tickDebt = 1428580 := by
  have low : 1 ≤ 700 := by decide
  have high : 700 ≤ 1000000 := by decide
  have hcounted : counted [5000000000, 1428571, 16666665] = 268095236 := by decide
  obtain ⟨p, hp, hcycles, hticks, hcycleDebt, htickDebt, -⟩ :=
    conserves_time low high [5000000000, 1428571, 16666665]
  rw [hcounted] at hcycles hticks hcycleDebt htickDebt
  exact ⟨⟨low, high⟩, hcounted, p, hp, hcycles, hticks, hcycleDebt, htickDebt⟩

end Pacer

end Chip8
