import Chip8.Proofs.Run.Events

/-!
# The accounts of a run

A run works in rounds, and each round has its events in a fixed order: the look at the halt flag,
the poll, the reading of the clock, the ticks that are due, the cycles that are due, and the sleep.
Only the number of cycles can fall short, and a round can be broken off.

* `Work` is what was done in a round after the poll; `Batch` says how its cycles come out.
* `Last` is where the rounds of a run end, in the middle of one or between two.
* `account_batch`, `account_batchNow` and `account_round` give the accounts of the parts of a round,
  and `account_rounds` joins them by induction on the rounds.
* `run_accounts` says what the events of a run from its beginning tell about its result.
-/

namespace Chip8

open Event

/-- The cycles of a batch, of which so many were due, come out like this. -/
structure Batch (due : Nat) (outcomes : List Outcome) (ending : Option Ending) : Prop where
  /-- There are no more than were due. -/
  within : outcomes.length ≤ due
  /-- A cycle that waits for a key is the last one. -/
  waits_last : ∀ before after, outcomes = before ++ .completed .waiting :: after → after = []
  /-- If the run goes on there are as many as were due, unless the last one waits. -/
  whole : ending = none → outcomes.length = due ∨ outcomes.getLast? = some (.completed .waiting)
  /-- If the run ends there, the limit came before a cycle that was due, or the last one failed. -/
  cut : ∀ e, ending = some e → (∃ n, e = .limitReached n ∧ outcomes.length < due) ∨
    ∃ error, e = .cycleFailed error ∧ outcomes.getLast? = some (.failed error)

/-- What is done in a round after the poll. -/
structure Work where
  /-- What was due. -/
  due : Due
  /-- How the cycles came out that were executed. -/
  outcomes : List Outcome

namespace Work

/-- The events from the reading of the clock to the last cycle. -/
def done (work : Work) : List Event :=
  .told work.due :: (List.replicate work.due.ticks .ticked ++ work.outcomes.map .cycled)

/-- The events of a round up to its last cycle. -/
def events (work : Work) : List Event := .looked false :: .polled (.ok ()) :: work.done

/-- The events of a round that is gone through to its end. -/
def round (work : Work) : List Event := work.events ++ [.slept]

end Work

/-- Where the rounds of a run end. -/
inductive Last where
  /-- After a round, from which the run goes on. -/
  | paused
  /-- At the look at the halt flag. -/
  | halted
  /-- At the poll. -/
  | unpolled (failure : PollFailure)
  /-- At the cycles. -/
  | cut (work : Work)

namespace Last

/-- The events of the round that is not gone through to its end. -/
def events : Last → List Event
  | paused => []
  | halted => [.looked true]
  | unpolled failure => [.looked false, .polled (.error failure)]
  | cut work => work.events

/-- The run ends accordingly. -/
def Explains : Last → Option Ending → Prop
  | paused, ending => ending = none
  | halted, ending => ∃ executed, ending = some (.halted executed)
  | unpolled failure, ending => ending = some failure.ending
  | cut work, ending => ending ≠ none ∧ Batch work.due.cycles work.outcomes ending

end Last

/-- The events of a run, round by round. -/
def history (works : List Work) (last : Last) : List Event :=
  works.flatMap Work.round ++ last.events

namespace Run

variable {δ σ : Type}

/-- What the events of a run from its beginning, round by round, tell about its result. -/
structure Books (display : Display δ) (host : Host σ) (limit : Option Nat) (r : Run δ σ)
    (works : List Work) (last : Last) (result : Option Ending × Run δ σ) : Prop where
  /-- The events happen one after the other and lead to the result. -/
  performed : Path display host r (history works last) (result.2.withCount r.executed)
  /-- They are all that was asked of the world. -/
  complete : ∀ journal, host.Keeps journal →
    journal result.2.world = journal r.world ++ (history works last).filter asks
  /-- In every round but the last the cycles that are due are executed, or one waits. -/
  worked : ∀ work ∈ works, Batch work.due.cycles work.outcomes none
  /-- In the last round the run ends as it says, or after it the run goes on. -/
  closed : last.Explains result.1
  /-- A run that comes to a regular end tells how many instructions it executed. -/
  counted : ∀ n, result.1.bind Ending.executed? = some n → n = executedIn (history works last)
  /-- No more instructions are executed than the limit allows. -/
  within : ∀ most, limit = some most → executedIn (history works last) ≤ most
  /-- No cycle is executed once so many have been. -/
  allowed : ∀ most, limit = some most → ∀ before outcome after,
    history works last = before ++ .cycled outcome :: after → executedIn before < most
  /-- A run with a limit that comes to a regular end and was not halted executed so many. -/
  reached : ∀ most, limit = some most → ∀ n, result.1.bind Ending.executed? = some n →
    .looked true ∉ history works last → n = most
  /-- After a look that finds the run halted nothing happens, and the run ends with that. -/
  halted : ∀ before after, history works last = before ++ .looked true :: after →
    after = [] ∧ result.1 = some (.halted (executedIn (history works last)))
  /-- After a poll that fails nothing happens, and the run ends with the failure. -/
  unpolled : ∀ before failure after,
    history works last = before ++ .polled (.error failure) :: after →
      after = [] ∧ result.1 = some failure.ending
  /-- After a cycle that fails nothing happens, and the run ends with the error. -/
  failed : ∀ before error after,
    history works last = before ++ .cycled (.failed error) :: after →
      after = [] ∧ result.1 = some (.cycleFailed error)

end Run

/-! ## Batches -/

namespace Batch

variable {due : Nat} {outcomes : List Outcome} {ending : Option Ending}

/-- An empty batch has no outcome and does not end the run. -/
theorem nil : Batch 0 [] none where
  within := Nat.le_refl 0
  waits_last := by simp
  whole := fun _ => .inl rfl
  cut := nofun

/-- A batch at the limit executes nothing and ends the run. -/
theorem limitReached (due executed : Nat) : Batch (due + 1) [] (some (.limitReached executed)) where
  within := Nat.zero_le _
  waits_last := by simp
  whole := nofun
  cut := by
    rintro _ ⟨⟩
    exact .inl ⟨executed, rfl, Nat.succ_pos due⟩

/-- A cycle that waits ends the batch. -/
theorem waiting (due : Nat) : Batch (due + 1) [.completed .waiting] none where
  within := Nat.succ_le_succ (Nat.zero_le due)
  waits_last := fun _ _ h => (Run.singleton_eq_mid h).2.2
  whole := fun _ => .inr rfl
  cut := nofun

/-- A cycle that fails ends the run. -/
theorem failed (due : Nat) (e : Error) : Batch (due + 1) [.failed e] (some (.cycleFailed e)) where
  within := Nat.succ_le_succ (Nat.zero_le due)
  waits_last := fun _ _ h => (Run.singleton_eq_mid h).2.2
  whole := nofun
  cut := by
    rintro _ ⟨⟩
    exact .inr ⟨e, rfl, rfl⟩

/-- One more cycle comes first, and does not wait. -/
theorem cons {outcome : Outcome} (hgo : outcome ≠ .completed .waiting)
    (h : Batch due outcomes ending) : Batch (due + 1) (outcome :: outcomes) ending where
  within := Nat.succ_le_succ h.within
  waits_last := by
    intro before after hsplit
    cases before with
    | nil => exact absurd (List.cons.inj hsplit).1 hgo
    | cons _ before => exact h.waits_last before after (List.cons.inj hsplit).2
  whole := by
    intro hnone
    rcases h.whole hnone with hlength | hlast
    · exact .inl (congrArg Nat.succ hlength)
    · exact .inr (by rw [List.getLast?_cons, hlast]; rfl)
  cut := by
    intro e he
    rcases h.cut e he with ⟨n, rfl, hlength⟩ | ⟨error, rfl, hlast⟩
    · exact .inl ⟨n, rfl, Nat.succ_lt_succ hlength⟩
    · exact .inr ⟨error, rfl, by rw [List.getLast?_cons, hlast]; rfl⟩

end Batch

namespace Run

variable {δ σ : Type} {display : Display δ} {host : Host σ} {limit : Option Nat}
  {r s : Run δ σ} {event : Event} {events : List Event} {result : Option Ending × Run δ σ}

/-! ## Accounts of the parts of a round -/

/-- A plain event happens first. -/
theorem Account.cons (h : Does display host r event s) (hplain : event.plain = true)
    (rest : Account display host limit s events result) :
    Account display host limit r (event :: events) result := by
  have hcount : s.executed = r.executed + executedIn [event] := by
    rw [h.executed, executedIn_of_plain hplain, Nat.add_zero]
  have hfirst : Account display host limit r [event] (none, s.withCount s.executed) := by
    apply Account.single h hcount
    · rintro outcome rfl
      cases hplain
    · rintro ⟨ending, hends⟩
      exact absurd hends (not_ends_of_plain hplain ending)
    · exact nofun
  exact hfirst.append rest

/-- The ticks of a round are told one by one. -/
theorem account_ticks (n : Nat) (r : Run δ σ) :
    Account display host limit r (List.replicate n .ticked) (none, r.ticks n) := by
  induction n with
  | zero => exact .nil r
  | succ n ih =>
    rw [List.replicate_succ']
    exact ih.append (.cons .ticked rfl (.nil _))

/-- A cycle happens that the limit allows. -/
theorem account_cycle {outcome : Outcome} {count : Nat} {ending : Option Ending}
    (hfree : atLimit limit r.executed = false) (hout : (r.cycle display host).1 = outcome)
    (hcount : count = r.executed + executedIn [.cycled outcome])
    (hends : ∀ e, (Event.cycled outcome).Ends e ↔ ending = some e) :
    Account display host limit r [.cycled outcome]
      (ending, (r.cycle display host).2.withCount count) := by
  have hdoes : Does display host r (.cycled outcome) (r.cycle display host).2 := by
    rw [← hout]
    exact .cycled
  apply Account.single hdoes hcount
  · intro _ _
    exact atLimit_eq_false_iff.1 hfree
  · rintro ⟨e, he⟩
    exact ⟨e, (hends e).1 he, he⟩
  · intro e he
    have hend := (hends e).2 he
    refine ⟨hend, ?_⟩
    cases hend with
    | failed error => exact nofun

/-- A cycle that executes an instruction counts. -/
theorem account_executes {outcome : Outcome} (hfree : atLimit limit r.executed = false)
    (hout : (r.cycle display host).1 = outcome) (h : outcome.executes = true) :
    Account display host limit r [.cycled outcome]
      (none, (r.cycle display host).2.countOne) := by
  have hone : executedIn [.cycled outcome] = 1 := by
    simp [executedIn, Event.executes, h]
  have hends : ∀ e, (Event.cycled outcome).Ends e ↔ none = some e := by
    intro e
    refine ⟨?_, nofun⟩
    rintro ⟨⟩
    cases h
  exact account_cycle hfree hout (by rw [hone, executed_cycle]) hends

/-- A cycle that waits for a key does not count. -/
theorem account_waits (hfree : atLimit limit r.executed = false)
    (h : (r.cycle display host).1 = .completed .waiting) :
    Account display host limit r [.cycled (.completed .waiting)]
      (none, (r.cycle display host).2) :=
  account_cycle hfree h rfl fun _ => ⟨nofun, nofun⟩

/-- A cycle that fails ends the run. -/
theorem account_fails {e : Error} (hfree : atLimit limit r.executed = false)
    (h : (r.cycle display host).1 = .failed e) :
    Account display host limit r [.cycled (.failed e)]
      (some (.cycleFailed e), (r.cycle display host).2) := by
  have hends : ∀ ending, (Event.cycled (.failed e)).Ends ending ↔
      some (Ending.cycleFailed e) = some ending := by
    intro ending
    constructor
    · rintro ⟨⟩
      rfl
    · rintro ⟨⟩
      exact .failed e
  exact account_cycle hfree h rfl hends

variable (display host limit) in
/-- **The account of a batch.** -/
theorem account_batch (n : Nat) (r : Run δ σ) :
    ∃ outcomes, Batch n outcomes (batch display host limit n r).1 ∧
      Account display host limit r (outcomes.map .cycled) (batch display host limit n r) := by
  -- a cycle that counts comes before a batch of one less; any other cycle is the last one
  induction n generalizing r with
  | zero => exact ⟨[], .nil, .nil r⟩
  | succ n ih =>
    cases hfree : atLimit limit r.executed with
    | true =>
      obtain ⟨most, hlimit, hle⟩ := atLimit_eq_true_iff.1 hfree
      rw [batch_of_atLimit n hfree]
      exact ⟨[], .limitReached n _, .limitReached hlimit hle⟩
    | false =>
      rcases cycle_cases display host r with hexec | hwait | ⟨e, hfail⟩
      · obtain ⟨outcomes, hbatch, hrest⟩ := ih (r.cycle display host).2.countOne
        rw [batch_of_executes n hfree hexec]
        have hgo : (r.cycle display host).1 ≠ .completed .waiting := by
          intro hwait
          rw [hwait] at hexec
          cases hexec
        exact ⟨_ :: outcomes, hbatch.cons hgo, (account_executes hfree rfl hexec).append hrest⟩
      · rw [batch_of_waits n hfree hwait]
        exact ⟨[.completed .waiting], .waiting n, account_waits hfree hwait⟩
      · rw [batch_of_fails n hfree hfail]
        exact ⟨[.failed e], .failed n e, account_fails hfree hfail⟩

variable (display host limit) in
/-- The account of what is done in a round before it sleeps. -/
theorem account_batchNow (r : Run δ σ) :
    ∃ work : Work, Batch work.due.cycles work.outcomes (batchNow display host limit r).1 ∧
      Account display host limit r work.done (batchNow display host limit r) := by
  obtain ⟨outcomes, hbatch, hcycles⟩ := account_batch display host limit (r.due host).cycles
    ((r.advance host).ticks (r.due host).ticks)
  have hticks : Account display host limit (r.advance host)
      (List.replicate (r.due host).ticks .ticked) (none, _) := account_ticks _ _
  exact ⟨⟨r.due host, outcomes⟩, hbatch, .cons .told rfl (hticks.append hcycles)⟩

/-- A round begins with a look at the halt flag, and one that goes on with a poll. -/
theorem Account.polled {world : σ} (hgo : host.halted r.world = false)
    (hpoll : host.poll r.world = (.ok (), world))
    (rest : Account display host limit { r with world } events result) :
    Account display host limit r (.looked false :: .polled (.ok ()) :: events) result :=
  .cons (does_looked hgo) rfl (.cons (does_polled hpoll) rfl rest)

/-- The account of a round that is halted. -/
theorem account_halted (h : host.halted r.world = true) :
    Account display host limit r [.looked true] (some (.halted r.executed), r) := by
  apply Account.single (does_looked h) rfl
  · exact nofun
  · rintro ⟨_, ⟨⟩⟩
    exact ⟨_, rfl, .halted _⟩
  · rintro _ ⟨⟩
    refine ⟨.halted _, ?_⟩
    rintro _ ⟨⟩
    rfl

/-- The account of a round whose poll fails. -/
theorem account_unpolled {failure : PollFailure} {world : σ} (hgo : host.halted r.world = false)
    (hpoll : host.poll r.world = (.error failure, world)) :
    Account display host limit r [.looked false, .polled (.error failure)]
      (some failure.ending, { r with world }) := by
  apply Account.cons (does_looked hgo) rfl
  apply Account.single (does_polled hpoll) rfl
  · exact nofun
  · rintro ⟨_, ⟨⟩⟩
    exact ⟨_, rfl, .unpolled failure⟩
  · rintro _ ⟨⟩
    refine ⟨.unpolled failure, ?_⟩
    cases failure with
    | refused e => exact nofun
    | broken d => exact nofun

variable (display host limit) in
/-- **The account of a round**, which is gone through to its end or is the last one. -/
theorem account_round (r : Run δ σ) :
    (∃ (work : Work) (s : Run δ σ), round display host limit r = (none, s) ∧
      Batch work.due.cycles work.outcomes none ∧ Account display host limit r work.round (none, s)) ∨
    ∃ (last : Last) (ending : Ending) (s : Run δ σ), round display host limit r = (some ending, s) ∧
      last.Explains (some ending) ∧
      Account display host limit r last.events (some ending, s) := by
  cases hhalt : host.halted r.world with
  | true => exact .inr ⟨.halted, _, r, round_of_halted hhalt, ⟨_, rfl⟩, account_halted hhalt⟩
  | false =>
    cases hpoll : host.poll r.world with
    | mk answer world =>
      cases answer with
      | error failure =>
        exact .inr ⟨.unpolled failure, _, _, round_of_unpolled hhalt hpoll, rfl,
          account_unpolled hhalt hpoll⟩
      | ok _ =>
        rw [round_of_polled hhalt hpoll]
        obtain ⟨work, hbatch, hdone⟩ := account_batchNow display host limit { r with world }
        cases hresult : batchNow display host limit { r with world } with
        | mk ending s =>
          rw [hresult] at hbatch hdone
          have hpolled := Account.polled hhalt hpoll hdone
          cases ending with
          | none =>
            have hround := hpolled.append (.cons .slept rfl (.nil _))
            exact .inl ⟨work, _, work_of_none hresult, hbatch, hround⟩
          | some ending =>
            exact .inr ⟨.cut work, ending, s, work_of_ending hresult, ⟨nofun, hbatch⟩, hpolled⟩

/-! ## Accounts of runs -/

variable (display host limit) in
/-- **The account of several rounds.** -/
theorem account_rounds (n : Nat) (r : Run δ σ) :
    ∃ (works : List Work) (last : Last),
      works.length ≤ n ∧ ((rounds display host limit n r).1 = none → works.length = n) ∧
      (∀ work ∈ works, Batch work.due.cycles work.outcomes none) ∧
      last.Explains (rounds display host limit n r).1 ∧
      Account display host limit r (history works last) (rounds display host limit n r) := by
  induction n generalizing r with
  | zero => exact ⟨[], .paused, Nat.le_refl 0, fun _ => rfl, by simp, rfl, .nil r⟩
  | succ n ih =>
    rw [rounds]
    rcases account_round display host limit r with
      ⟨work, s, hround, hwhole, hfirst⟩ | ⟨last, ending, s, hround, hlast, haccount⟩
    · obtain ⟨works, last, hfew, hall, hworks, hlast, hrest⟩ := ih s
      rw [hround]
      refine ⟨work :: works, last, Nat.succ_le_succ hfew, ?_, ?_, hlast, ?_⟩
      · intro hnone
        exact congrArg Nat.succ (hall hnone)
      · simpa using ⟨hwhole, hworks⟩
      · rw [history, List.flatMap_cons, List.append_assoc]
        exact hfirst.append hrest
    · rw [hround]
      refine ⟨[], last, Nat.zero_le _, ?_, by simp, hlast, haccount⟩
      intro hnone
      cases hnone

/-- Whenever a cycle is executed the limit allows one more, so it is never exceeded. -/
theorem executedIn_le {most count : Nat} (hle : count ≤ most)
    (h : ∀ before outcome after, events = before ++ .cycled outcome :: after →
      count + executedIn before < most) : count + executedIn events ≤ most := by
  induction events generalizing count with
  | nil => exact hle
  | cons event rest ih =>
    rw [executedIn_cons, ← Nat.add_assoc]
    apply ih
    · cases event with
      | cycled outcome =>
        have hlt : count < most := h [] outcome rest rfl
        have hone : executedIn [.cycled outcome] ≤ 1 := List.countP_le_length
        omega
      | _ => exact hle
    · intro before outcome after hsplit
      have hlt := h (event :: before) outcome after (by rw [hsplit]; rfl)
      rwa [executedIn_cons, ← Nat.add_assoc] at hlt

/-- A regular end without a halt is that the limit is reached. -/
theorem Account.reached {most n : Nat} (h : Account display host (some most) r events result)
    (hn : result.1.bind Ending.executed? = some n) (hgo : .looked true ∉ events) :
    most ≤ result.2.executed := by
  obtain ⟨ending, hending, hexecuted⟩ := Option.bind_eq_some_iff.1 hn
  rcases h.ended ending hending with ⟨_, ⟨⟩, hle, -⟩ | ⟨event, hlast, hends⟩
  · exact hle
  · cases hends with
    | halted => exact absurd (List.mem_of_getLast? hlast) hgo
    | unpolled failure => cases failure <;> cases hexecuted
    | failed e => cases hexecuted

/-- The account of a run from its beginning is made into its books. -/
theorem Account.books {works : List Work} {last : Last} (hzero : r.executed = 0)
    (hrounds : ∀ work ∈ works, Batch work.due.cycles work.outcomes none)
    (hlast : last.Explains result.1)
    (h : Account display host limit r (history works last) result) :
    Books display host limit r works last result := by
  have hcount : result.2.executed = executedIn (history works last) := by
    rw [h.counted, hzero, Nat.zero_add]
  have hallowed := h.allowed
  rw [hzero] at hallowed
  have hwithin : ∀ most, limit = some most → executedIn (history works last) ≤ most := by
    intro most hlimit
    have hle := executedIn_le (Nat.zero_le most) fun before outcome after hsplit =>
      hallowed before outcome after hsplit most hlimit
    rwa [Nat.zero_add] at hle
  refine ⟨h.performed, ?_, hrounds, hlast, ?_, hwithin, ?_, ?_, ?_, ?_, ?_⟩
  · intro journal hk
    have hjournal := h.performed.journal hk
    exact hjournal
  · intro n hn
    rw [h.total n hn, hcount]
  · intro most hlimit before outcome after hsplit
    have hlt := hallowed before outcome after hsplit most hlimit
    rwa [Nat.zero_add] at hlt
  · rintro most rfl n hn hgo
    have hle := hwithin most rfl
    have hge := h.reached hn hgo
    have htotal := h.total n hn
    omega
  · intro before after hsplit
    obtain ⟨hafter, _, hending, ⟨⟩⟩ := h.stops before _ after hsplit ⟨_, .halted 0⟩
    rename_i executed
    have htotal := h.total executed (by rw [hending]; rfl)
    rw [hending, htotal, hcount]
    exact ⟨hafter, rfl⟩
  · intro before failure after hsplit
    obtain ⟨hafter, _, hending, ⟨⟩⟩ := h.stops before _ after hsplit ⟨_, .unpolled failure⟩
    exact ⟨hafter, hending⟩
  · intro before error after hsplit
    obtain ⟨hafter, _, hending, ⟨⟩⟩ := h.stops before _ after hsplit ⟨_, .failed error⟩
    exact ⟨hafter, hending⟩

/-- A list of rounds that begins with a look at a raised halt flag ends there. -/
theorem history_eq_of_halted {works : List Work} {last : Last} {ending : Ending}
    (h : host.halted r.world = true) (hpath : Path display host r (history works last) s)
    (hlast : last.Explains (some ending)) : history works last = [.looked true] := by
  have hfirst : ∀ rest, history works last ≠ .looked false :: rest := by
    intro rest hrest
    rw [hrest] at hpath
    cases hpath with
    | cons hdoes _ =>
      generalize hevent : Event.looked false = event at hdoes
      cases hdoes with
      | looked =>
        rw [h] at hevent
        cases hevent
      | _ => cases hevent
  cases works with
  | cons work works => exact absurd rfl (hfirst _)
  | nil =>
    cases last with
    | paused => cases hlast
    | halted => rfl
    | unpolled failure => exact absurd rfl (hfirst _)
    | cut work => exact absurd rfl (hfirst _)

/-- **Every run can be accounted for.** The events of a run, round by round, lead to its result and
are all that it asked of the world, whatever time passes, whatever the keypad answers and whenever
the run is halted. They tell the number of instructions that a run returns; the limit is kept to
the instruction, and reached unless the run is halted or fails; a round polls first, ticks as often
as is due and executes the cycles that are due unless it is cut short; a failure is the last thing
to happen. The run goes on round after round until it ends or has had as many as it may, and one
that is halted from the beginning does nothing. -/
theorem run_accounts (display : Display δ) (host : Host σ) (limit : Option Nat) (budget : Nat)
    (pacer : Pacer) (vm : Vm δ) (world : σ) :
    ∃ (works : List Work) (last : Last),
      Books display host limit (start host pacer vm world) works last
        (run display host limit budget pacer vm world) ∧
      works.length ≤ budget ∧
      ((run display host limit budget pacer vm world).1 = none → works.length = budget) ∧
      (host.halted world = true → 0 < budget → history works last = [.looked true] ∧
        run display host limit budget pacer vm world =
          (some (.halted 0), start host pacer vm world)) := by
  obtain ⟨works, last, hfew, hall, hrounds, hlast, haccount⟩ :=
    account_rounds display host limit budget (start host pacer vm world)
  refine ⟨works, last, haccount.books rfl hrounds hlast, hfew, hall, ?_⟩
  intro hhalt hbudget
  have hrun : Run.rounds display host limit budget (start host pacer vm world) =
      (some (.halted 0), start host pacer vm world) := by
    cases budget with
    | zero => cases hbudget
    | succ budget =>
      rw [Run.rounds, round_of_halted hhalt]
      rfl
  rw [hrun] at hlast
  exact ⟨history_eq_of_halted hhalt haccount.performed hlast, hrun⟩

end Run

end Chip8
