import Chip8.Fault

/-!
# Pacing

A pacer turns time that has passed into work that is due: instruction cycles at a chosen rate
and timer ticks at sixty a second. Each kind of work has a debt of time of its own, so that the
rate of the one never touches the other. All times are whole nanoseconds.

* `Pacer.ofRate` makes a pacer; only rates from one to a million a second are supported.
* `Pacer.advance` adds passed time to both debts and takes whole periods out of them. After a
  long stall only a quarter of a second is caught up on.
* `Pacer.untilNext` is the time until something else falls due.
-/

namespace Chip8

/-- Nanoseconds in a second. -/
def second : Nat := 1000000000

/-- Work that is due now. -/
structure Due where
  /-- Instruction cycles. -/
  cycles : Nat
  /-- Timer ticks. -/
  ticks : Nat
  deriving DecidableEq

/-- Periods, and the time that has passed but has not been worked off. -/
structure Pacer where
  /-- Time between cycles. -/
  cyclePeriod : Nat
  /-- Time owed to cycles. -/
  cycleDebt : Nat := 0
  /-- Time owed to ticks. -/
  tickDebt : Nat := 0
  deriving DecidableEq

namespace Pacer

/-- The slowest supported rate, in cycles per second. -/
def lowestRate : Nat := 1

/-- The fastest supported rate, in cycles per second. -/
def highestRate : Nat := 1000000

/-- Time between ticks: a sixtieth of a second, rounded down. -/
def tickPeriod : Nat := second / 60

/-- The most time that is caught up on at once: a quarter of a second. -/
def catchUpLimit : Nat := second / 4

/-- A pacer for a rate in cycles per second. Its period is rounded down. -/
def ofRate (rate : Nat) : Except Error Pacer :=
  if lowestRate ≤ rate ∧ rate ≤ highestRate then .ok { cyclePeriod := second / rate }
  else .error (.invalidRate rate lowestRate highestRate)

/-- The number of whole periods in a debt, as a number of 32 bits. -/
def wholePeriods (debt period : Nat) : Nat := debt / period % 0x100000000

/-- The work that is due after some more time, and the debts that remain. -/
def advance (p : Pacer) (elapsed : Nat) : Due × Pacer :=
  let elapsed := min elapsed catchUpLimit
  let cycleDebt := p.cycleDebt + elapsed
  let tickDebt := p.tickDebt + elapsed
  let cycles := wholePeriods cycleDebt p.cyclePeriod
  let ticks := wholePeriods tickDebt tickPeriod
  ({ cycles, ticks },
    { p with
      cycleDebt := cycleDebt - p.cyclePeriod * cycles
      tickDebt := tickDebt - tickPeriod * ticks })

/-- The time until the next cycle or tick falls due, whichever is sooner. -/
def untilNext (p : Pacer) : Nat := min (p.cyclePeriod - p.cycleDebt) (tickPeriod - p.tickDebt)

/-- What `n` equal steps of time make due, each with the pacer after it. -/
def steps (elapsed : Nat) : Nat → Pacer → List (Due × Pacer)
  | 0, _ => []
  | n + 1, p =>
    let step := p.advance elapsed
    step :: steps elapsed n step.2

/-- A supported rate makes a pacer that owes nothing yet. -/
theorem ofRate_eq_ok {rate : Nat} (low : 1 ≤ rate) (high : rate ≤ 1000000) :
    ofRate rate = .ok { cyclePeriod := second / rate } := by
  rw [ofRate, if_pos ⟨low, high⟩]

end Pacer

end Chip8
