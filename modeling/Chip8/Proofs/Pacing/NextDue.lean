import Chip8.Proofs.Pacing.Conservation
import Chip8.Proofs.Run.Events

/-!
# When something falls due next

The time that a pacer gives until something falls due is right to the nanosecond: after less time
nothing is due, and after that time a cycle or a tick is. It is never zero and never longer than a
period, so that the limit on what is caught up on plays no part in it.

* `Steady.due_eq_zero_iff` says so of one pacer.
* `Does.steady` and `Path.steady`: whatever happens in a run, its pacer remains one of which this
  can be said.
* `Run.SleepsInTime` tells what it means for a run that sleeps: it never sleeps for no time at all,
  and what it sleeps for is what is missing until the next cycle or tick.
* `untilNext_exact` puts them together.
-/

namespace Chip8

/-- The sleep that a run would begin now has a length, and it reaches from the last reading of the
clock to the first one that finds something due. -/
structure Run.SleepsInTime {δ σ : Type} (host : Host σ) (r : Run δ σ) : Prop where
  /-- It is not a sleep of no time. -/
  pos : 0 < r.pacer.untilNext
  /-- The next reading of the clock, after whatever has happened to the world in the meantime,
  finds nothing due if it is before the end of that time, and something if it is not. -/
  due_iff : ∀ world, ({ r with world }).due host = ⟨0, 0⟩ ↔
    host.clock world < r.last + r.pacer.untilNext

namespace Pacer

variable {p : Pacer}

/-! ## The time until something is due -/

/-- A debt below its period leaves some time to go. -/
theorem Steady.untilNext_pos (h : p.Steady) : 0 < p.untilNext :=
  Nat.lt_min.2 ⟨Nat.sub_pos_of_lt h.cycleDebt, Nat.sub_pos_of_lt h.tickDebt⟩

/-- There is never more than a period to go. -/
theorem untilNext_le (p : Pacer) : p.untilNext ≤ min p.cyclePeriod tickPeriod := by
  unfold untilNext
  omega

/-- A tick is due sooner than the limit on what is caught up on, so that all of the time counts. -/
theorem caughtUp_untilNext (p : Pacer) : caughtUp p.untilNext = p.untilNext := by
  have hle := untilNext_le p
  have hlimit : tickPeriod ≤ 250000000 := by decide
  exact Nat.min_eq_left (by omega)

/-- **Nothing is due before the time has passed, and something is when it has.** -/
theorem Steady.due_eq_zero_iff (h : p.Steady) (elapsed : Nat) :
    (p.advance elapsed).1 = ⟨0, 0⟩ ↔ elapsed < p.untilNext := by
  have hcycle := h.cycleDebt
  have htick := h.tickDebt
  have hlimit : tickPeriod < 250000000 := by decide
  have hnone : (p.advance elapsed).1 = ⟨0, 0⟩ ↔
      p.cycleDebt + caughtUp elapsed < p.cyclePeriod ∧
        p.tickDebt + caughtUp elapsed < tickPeriod := by
    rw [h.advance_eq, Due.mk.injEq, Nat.div_eq_zero_iff_lt (by omega),
      Nat.div_eq_zero_iff_lt (by omega)]
  rw [hnone, untilNext, caughtUp]
  omega

/-- What is not nothing is a cycle or a tick. -/
theorem due_ne_zero_iff {due : Due} : due ≠ ⟨0, 0⟩ ↔ 0 < due.cycles ∨ 0 < due.ticks := by
  obtain ⟨cycles, ticks⟩ := due
  simp only [ne_eq, Due.mk.injEq]
  omega

end Pacer

/-! ## The pacer of a run -/

namespace Run

variable {δ σ : Type} {display : Display δ} {host : Host σ} {r s : Run δ σ} {event : Event}
  {events : List Event}

/-- Only a reading of the clock advances the pacer. -/
theorem Does.steady (h : Does display host r event s) (hr : r.pacer.Steady) :
    s.pacer.Steady := by
  cases h with
  | told => exact hr.advance _
  | looked | polled | ticked | cycled | slept => exact hr

/-- The pacer of a run stays steady all along. -/
theorem Path.steady (h : Path display host r events s) (hr : r.pacer.Steady) :
    s.pacer.Steady := by
  induction h with
  | nil r => exact hr
  | cons hdoes _ ih => exact ih (hdoes.steady hr)

/-- A run whose debts are below their periods sleeps in time. -/
theorem sleepsInTime_of_steady (h : r.pacer.Steady) : r.SleepsInTime host where
  pos := h.untilNext_pos
  due_iff world := by
    have hpos := h.untilNext_pos
    have hdue := h.due_eq_zero_iff (host.clock world - r.last)
    unfold due
    rw [hdue]
    omega

end Run

namespace Pacer

/-- **The time until something falls due is exact.** Whatever sequence of advances a pacer has gone
through, that time is not zero and not longer than either period; nothing is due after any shorter
time, and a cycle or a tick is due after it, with no regard to the limit on what is caught up on. So
at every point of every run that goes on with such a pacer, a sleep has a length, and it is the time
that is missing until something is due. -/
theorem untilNext_exact {rate : Nat} (low : 1 ≤ rate) (high : rate ≤ 1000000) (times : List Nat) :
    ∃ p q, ofRate rate = .ok p ∧ q = p.afterAll times ∧
      0 < q.untilNext ∧ q.untilNext ≤ min (1000000000 / rate) 16666666 ∧
      (∀ d, (q.advance d).1 = ⟨0, 0⟩ ↔ d < q.untilNext) ∧
      (0 < (q.advance q.untilNext).1.cycles ∨ 0 < (q.advance q.untilNext).1.ticks) ∧
      caughtUp q.untilNext = q.untilNext ∧
      ∀ {δ σ : Type} (display : Display δ) (host : Host σ) (r s : Run δ σ) (events : List Event),
        r.pacer = q → Run.Path display host r events s → s.SleepsInTime host := by
  have hp := ofRate_eq_ok low high
  have hsteady := (steady_ofRate hp).afterAll times
  have hperiod := (steady_ofRate hp).afterAll_eq times
  refine ⟨_, _, hp, rfl, hsteady.untilNext_pos, ?_, hsteady.due_eq_zero_iff, ?_,
    caughtUp_untilNext _, ?_⟩
  · have hle := untilNext_le (afterAll { cyclePeriod := second / rate } times)
    rw [hperiod] at hle ⊢
    exact hle
  · apply due_ne_zero_iff.1
    intro hnone
    exact Nat.lt_irrefl _ ((hsteady.due_eq_zero_iff _).1 hnone)
  · intro δ σ display host r s events hr hpath
    exact Run.sleepsInTime_of_steady (hpath.steady (hr ▸ hsteady))

/-- At 700 cycles a second, after a long stall and parts of periods, the next cycle is due in less
than half a millisecond. -/
theorem untilNext_exact_700 :
    (1 ≤ 700 ∧ 700 ≤ 1000000) ∧
      ∃ p q, ofRate 700 = .ok p ∧ q = p.afterAll [5000000000, 1428571, 16666665] ∧
        q.untilNext = 476112 ∧ (q.advance 476111).1 = ⟨0, 0⟩ ∧ (q.advance 476112).1 ≠ ⟨0, 0⟩ := by
  have low : 1 ≤ 700 := by decide
  have high : 700 ≤ 1000000 := by decide
  obtain ⟨p, q, hp, hq, -, -, hdue, -⟩ :=
    untilNext_exact low high [5000000000, 1428571, 16666665]
  have htime : q.untilNext = 476112 := by
    cases (ofRate_eq_ok low high).symm.trans hp
    rw [hq]
    decide
  rw [htime] at hdue
  exact ⟨⟨low, high⟩, p, q, hp, hq, htime, (hdue _).2 (by decide),
    fun hnone => absurd ((hdue _).1 hnone) (by decide)⟩

end Pacer

end Chip8
