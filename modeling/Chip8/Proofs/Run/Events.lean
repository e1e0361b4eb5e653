import Chip8.Proofs.Run.Rounds

/-!
# What happens in a run

A run does six things: it looks whether it is to halt, polls the keypad, asks the pacer what is due,
ticks the timers, executes a cycle, and sleeps. Each is an `Event` that notes what was answered.

* `Run.Does r event s`: from `r` the event can happen, and leads to `s`. The counter of executed
  instructions has no part in it.
* `Run.Path r events s`: the events of a list happen one after the other. What a run does is told by
  such a path, so that nothing is left out of its list of events and nothing is added.
* `Run.Account`: a list of events with the path that they make, and how they tell the number of
  executed instructions, the limit and the ending. Accounts are joined by `Account.append`.
-/

namespace Chip8

/-- Something that happens in a run. -/
inductive Event where
  /-- The run looks whether it is to halt. -/
  | looked (halt : Bool)
  /-- The keypad is polled, and answers. -/
  | polled (answer : Except PollFailure Unit)
  /-- The clock is read, and the pacer tells what is due. -/
  | told (due : Due)
  /-- The timers tick. -/
  | ticked
  /-- A cycle is executed. -/
  | cycled (outcome : Outcome)
  /-- The run sleeps until something else falls due. -/
  | slept

namespace Event

/-- An instruction is executed. -/
def executes : Event → Bool
  | cycled outcome => outcome.executes
  | _ => false

/-- Nothing is executed and nothing ends the run. -/
def plain : Event → Bool
  | looked halt => !halt
  | polled answer => answer.isOk
  | told _ | ticked | slept => true
  | cycled _ => false

/-- The world is asked to take something in: a poll, a cycle that it observes, or a sleep. -/
def asks : Event → Bool
  | polled _ | cycled _ | slept => true
  | _ => false

/-- How many instructions are executed. -/
def executedIn (events : List Event) : Nat := events.countP executes

/-- The run ends at once, in that way. -/
inductive Ends : Event → Ending → Prop where
  | halted (executed : Nat) : Ends (looked true) (.halted executed)
  | unpolled (failure : PollFailure) : Ends (polled (.error failure)) failure.ending
  | failed (e : Error) : Ends (cycled (.failed e)) (.cycleFailed e)

/-- What is executed in two stretches adds up. -/
theorem executedIn_append (events more : List Event) :
    executedIn (events ++ more) = executedIn events + executedIn more := List.countP_append

/-- So does what is executed in the first event and in the others. -/
theorem executedIn_cons (event : Event) (events : List Event) :
    executedIn (event :: events) = executedIn [event] + executedIn events :=
  executedIn_append [event] events

/-- A plain event executes nothing. -/
theorem executedIn_of_plain {event : Event} (h : event.plain = true) : executedIn [event] = 0 := by
  cases event with
  | cycled outcome => cases h
  | _ => rfl

/-- Nor does it end a run. -/
theorem not_ends_of_plain {event : Event} (h : event.plain = true) (ending : Ending) :
    ¬ event.Ends ending := by
  rintro ⟨⟩ <;> cases h

end Event

/-- The world writes down, in order, what it is asked to take in. -/
structure Host.Keeps {σ : Type} (host : Host σ) (journal : σ → List Event) : Prop where
  poll : ∀ world, journal (host.poll world).2 = journal world ++ [.polled (host.poll world).1]
  observe : ∀ report world,
    journal (host.observe report world) = journal world ++ [.cycled report.outcome]
  sleep : ∀ time world, journal (host.sleep time world) = journal world ++ [.slept]

namespace Run

open Event

variable {δ σ : Type} {display : Display δ} {host : Host σ} {limit : Option Nat}
  {r s t : Run δ σ} {event : Event} {events more : List Event}

/-! ## Events in sequence -/

/-- The event can happen, and leads to the second state. -/
inductive Does (display : Display δ) (host : Host σ) (r : Run δ σ) : Event → Run δ σ → Prop where
  | looked : Does display host r (.looked (host.halted r.world)) r
  | polled : Does display host r (.polled (host.poll r.world).1)
      { r with world := (host.poll r.world).2 }
  | told : Does display host r (.told (r.due host)) (r.advance host)
  | ticked : Does display host r .ticked { r with vm := r.vm.tick }
  | cycled : Does display host r (.cycled (r.cycle display host).1) (r.cycle display host).2
  | slept : Does display host r .slept (r.sleep host)

/-- A look at the halt flag changes nothing. -/
theorem does_looked {halt : Bool} (h : host.halted r.world = halt) :
    Does display host r (.looked halt) r := by
  rw [← h]
  exact .looked

/-- A poll changes the world. -/
theorem does_polled {answer : Except PollFailure Unit} {world : σ}
    (h : host.poll r.world = (answer, world)) :
    Does display host r (.polled answer) { r with world } := by
  have hpolled : Does display host r (.polled (host.poll r.world).1)
      { r with world := (host.poll r.world).2 } := .polled
  rwa [h] at hpolled

/-- The events happen one after the other. -/
inductive Path (display : Display δ) (host : Host σ) : Run δ σ → List Event → Run δ σ → Prop where
  | nil (r : Run δ σ) : Path display host r [] r
  | cons {r s t : Run δ σ} {event : Event} {events : List Event} (h : Does display host r event s)
      (rest : Path display host s events t) : Path display host r (event :: events) t

/-- The same state with another count of executed instructions. -/
def withCount (r : Run δ σ) (count : Nat) : Run δ σ := { r with executed := count }

/-- No event looks at the count or changes it. -/
theorem Does.withCount (h : Does display host r event s) (count : Nat) :
    Does display host (r.withCount count) event (s.withCount count) := by
  cases h with
  | looked => exact .looked
  | polled => exact .polled
  | told => exact .told
  | ticked => exact .ticked
  | cycled => exact .cycled
  | slept => exact .slept

/-- No event counts by itself. -/
theorem Does.executed (h : Does display host r event s) : s.executed = r.executed := by
  cases h <;> rfl

/-- So a path is one whatever has been counted. -/
theorem Path.withCount (h : Path display host r events s) (count : Nat) :
    Path display host (r.withCount count) events (s.withCount count) := by
  induction h with
  | nil r => exact .nil _
  | cons hdoes _ ih => exact .cons (hdoes.withCount count) ih

/-- A path goes on where another one has ended. -/
theorem Path.append (h : Path display host r events s) (h' : Path display host s more t) :
    Path display host r (events ++ more) t := by
  induction h with
  | nil => exact h'
  | cons hdoes _ ih => exact .cons hdoes (ih h')

/-- A host's journal gains the events that ask something of the host. -/
theorem Does.journal {journal : σ → List Event} (hk : host.Keeps journal)
    (h : Does display host r event s) :
    journal s.world = journal r.world ++ [event].filter asks := by
  cases h with
  | looked | told | ticked => exact (List.append_nil _).symm
  | polled => exact hk.poll _
  | cycled => exact hk.observe _ _
  | slept => exact hk.sleep _ _

/-- A world that keeps a journal has written down what the events asked of it, and nothing else. -/
theorem Path.journal {journal : σ → List Event} (hk : host.Keeps journal)
    (h : Path display host r events s) :
    journal s.world = journal r.world ++ events.filter asks := by
  induction h with
  | nil r => exact (List.append_nil _).symm
  | @cons r s t event events hdoes _ ih =>
    rw [ih, hdoes.journal hk, List.append_assoc, ← List.filter_append]
    rfl

/-- A place in two lists joined lies in the first or in the second. -/
theorem append_eq_mid {α : Type} {first second before after : List α} {x : α}
    (h : first ++ second = before ++ x :: after) :
    (∃ mid, first = before ++ x :: mid ∧ after = mid ++ second) ∨
      ∃ mid, before = first ++ mid ∧ second = mid ++ x :: after := by
  rcases List.append_eq_append_iff.1 h with ⟨mid, hbefore, hsecond⟩ | ⟨mid, hfirst, hafter⟩
  · exact .inr ⟨mid, hbefore, hsecond⟩
  · cases mid with
    | nil => exact .inr ⟨[], by simpa using hfirst.symm, by simpa using hafter.symm⟩
    | cons y mid =>
      obtain ⟨rfl, rfl⟩ := List.cons.inj hafter
      exact .inl ⟨mid, hfirst, rfl⟩

/-- A list of one element has nothing before it or after it. -/
theorem singleton_eq_mid {α : Type} {before after : List α} {a x : α}
    (h : [a] = before ++ x :: after) : before = [] ∧ x = a ∧ after = [] := by
  cases before with
  | nil =>
    obtain ⟨ha, hafter⟩ := List.cons.inj h
    exact ⟨rfl, ha.symm, hafter.symm⟩
  | cons y before => simp at h

/-! ## Accounts -/

/-- How the events from a state tell what the run came to. -/
structure Account (display : Display δ) (host : Host σ) (limit : Option Nat) (start : Run δ σ)
    (events : List Event) (result : Option Ending × Run δ σ) : Prop where
  /-- They happen one after the other and lead to the state in the end, but for its count. -/
  performed : Path display host start events (result.2.withCount start.executed)
  /-- The count has grown by the instructions executed. -/
  counted : result.2.executed = start.executed + executedIn events
  /-- Whenever a cycle was executed, fewer instructions had been executed than the limit allows. -/
  allowed : ∀ before outcome after, events = before ++ .cycled outcome :: after →
    ∀ most, limit = some most → start.executed + executedIn before < most
  /-- What ends the run is the last thing that happens. -/
  stops : ∀ before event after, events = before ++ event :: after → (∃ ending, event.Ends ending) →
    after = [] ∧ ∃ ending, result.1 = some ending ∧ event.Ends ending
  /-- The run ends for that, or because it has executed as many instructions as the limit allows. -/
  ended : ∀ ending, result.1 = some ending →
    (∃ most, limit = some most ∧ most ≤ result.2.executed ∧
      ending = .limitReached result.2.executed) ∨
    ∃ event, events.getLast? = some event ∧ event.Ends ending
  /-- The number that it ends with is the count. -/
  total : ∀ executed, result.1.bind Ending.executed? = some executed → executed = result.2.executed

/-- Nothing happens, and the run goes on. -/
theorem Account.nil (r : Run δ σ) : Account display host limit r [] (none, r) where
  performed := .nil r
  counted := rfl
  allowed := by simp
  stops := by simp
  ended := by simp
  total := by simp

/-- Nothing happens, as the limit has been reached. -/
theorem Account.limitReached {most : Nat} (hlimit : limit = some most) (h : most ≤ r.executed) :
    Account display host limit r [] (some (.limitReached r.executed), r) where
  performed := .nil r
  counted := rfl
  allowed := by simp
  stops := by simp
  ended := by
    rintro ending ⟨⟩
    exact .inl ⟨most, hlimit, h, rfl⟩
  total := by
    rintro executed ⟨⟩
    rfl

/-- One event happens. -/
theorem Account.single {count : Nat} {ending : Option Ending} (h : Does display host r event s)
    (hcount : count = r.executed + executedIn [event])
    (hallowed : ∀ outcome, event = .cycled outcome → ∀ most, limit = some most → r.executed < most)
    (hends : (∃ e, event.Ends e) → ∃ e, ending = some e ∧ event.Ends e)
    (hended : ∀ e, ending = some e → event.Ends e ∧ ∀ n, e.executed? = some n → n = count) :
    Account display host limit r [event] (ending, s.withCount count) where
  performed := by
    have hdoes := h.withCount r.executed
    exact .cons hdoes (.nil _)
  counted := hcount
  allowed := by
    intro before outcome after hsplit most hlimit
    obtain ⟨rfl, hevent, -⟩ := singleton_eq_mid hsplit
    exact hallowed outcome hevent.symm most hlimit
  stops := by
    intro before _ after hsplit hstop
    obtain ⟨-, rfl, hafter⟩ := singleton_eq_mid hsplit
    exact ⟨hafter, hends hstop⟩
  ended := by
    intro e he
    exact .inr ⟨event, rfl, (hended e he).1⟩
  total := by
    intro n hn
    obtain ⟨e, he, hn⟩ := Option.bind_eq_some_iff.1 hn
    exact (hended e he).2 n hn

/-- What happens first and what happens next, told together. -/
theorem Account.append {result : Option Ending × Run δ σ}
    (h : Account display host limit r events (none, s))
    (h' : Account display host limit s more result) :
    Account display host limit r (events ++ more) result where
  performed := h.performed.append (h'.performed.withCount r.executed)
  counted := by
    have hs : s.executed = r.executed + executedIn events := h.counted
    rw [h'.counted, hs, executedIn_append, Nat.add_assoc]
  allowed := by
    intro before outcome after hsplit most hlimit
    have hs : s.executed = r.executed + executedIn events := h.counted
    rcases append_eq_mid hsplit with ⟨mid, hevents, -⟩ | ⟨mid, rfl, hmore⟩
    · exact h.allowed before outcome mid hevents most hlimit
    · have hlt := h'.allowed mid outcome after hmore most hlimit
      rw [executedIn_append]
      omega
  stops := by
    intro before event after hsplit hends
    rcases append_eq_mid hsplit with ⟨mid, hevents, -⟩ | ⟨mid, -, hmore⟩
    · obtain ⟨-, ending, hnone, -⟩ := h.stops before event mid hevents hends
      cases hnone
    · exact h'.stops mid event after hmore hends
  ended := by
    intro ending hending
    rcases h'.ended ending hending with hlimit | ⟨event, hlast, hends⟩
    · exact .inl hlimit
    · exact .inr ⟨event, by simp [hlast], hends⟩
  total := h'.total

end Run

end Chip8
