import Chip8.Terminal.Keyboard

/-!
# What typing does

A poll takes the events that a terminal has queued, one after the other. A key asks for halting, or it
presses a key of the keypad, or it does nothing; and since a key is held by its latest press alone, what
a whole queue does to the keypad can be told without going through it.

* `TerminalEvent.Halts` and `TerminalEvent.Presses` say which events do what.
* `notice_cases` is the step: one event does the one, or the other, or nothing.
* `noticeAll` is the state after some events, with one induction for each part of it.
* `poll_events` and `poll_failure`: what a poll takes in, up to the end of the queue or to a failure.
* `poll_takes_queue` puts them together.
-/

namespace Chip8

/-! ## Which events do what -/

/-- A character has a key if its lower case stands in the table with that key. -/
theorem Layout.key?_eq_some_iff {c : Char} {key : Key} :
    key? c = some key ↔ (c.toLower, key) ∈ table := by
  constructor
  · intro h
    obtain ⟨before, after, htable, -⟩ := List.lookup_eq_some_iff.1 h
    rw [htable]
    simp
  · intro h
    have hall : ∀ entry ∈ table, table.lookup entry.1 = some entry.2 := by decide
    exact hall _ h

namespace TerminalEvent

variable {e : TerminalEvent} {key other : Key}

/-- The event asks for halting: it is the escape key, or the small `c` with Control. -/
def Halts : TerminalEvent → Prop
  | .key e => e.code = .escape ∨ (e.code = .char 'c' ∧ e.control = true)
  | .mouse | .resize => False

/-- The event presses a key: it is a character, other than the small `c` with Control, whose lower case
the layout gives to the key. -/
def Presses (key : Key) : TerminalEvent → Prop
  | .key e => ∃ c, e.code = .char c ∧ ¬ (c = 'c' ∧ e.control = true) ∧ (c.toLower, key) ∈ Layout.table
  | .mouse | .resize => False

/-- A character asks for halting exactly if it is the small `c` and Control was held. -/
theorem halts_iff_of_char {e : KeyEvent} {c : Char} (h : e.code = .char c) :
    Halts (.key e) ↔ c = 'c' ∧ e.control = true := by
  simp [Halts, h]

/-- Any other character presses the key that it has. -/
theorem presses_iff_of_char {e : KeyEvent} {c : Char} (h : e.code = .char c) :
    Presses key (.key e) ↔ ¬ (c = 'c' ∧ e.control = true) ∧ Layout.key? c = some key := by
  simp [Presses, h, Layout.key?_eq_some_iff]

/-- Nothing but a character presses a key. -/
theorem Presses.exists_char (h : e.Presses key) :
    ∃ typed c, e = .key typed ∧ typed.code = .char c := by
  cases e with
  | mouse | resize => exact h.elim
  | key typed =>
    obtain ⟨c, hchar, -⟩ := h
    exact ⟨typed, c, rfl, hchar⟩

/-- No event does both. -/
theorem Presses.not_halts (h : e.Presses key) : ¬ e.Halts := by
  obtain ⟨typed, c, rfl, hchar⟩ := h.exists_char
  rw [halts_iff_of_char hchar]
  exact ((presses_iff_of_char hchar).1 h).1

/-- No event presses two keys. -/
theorem Presses.unique (h : e.Presses key) (h' : e.Presses other) : key = other := by
  obtain ⟨typed, c, rfl, hchar⟩ := h.exists_char
  have hkey := ((presses_iff_of_char hchar).1 h).2
  have hother := ((presses_iff_of_char hchar).1 h').2
  exact Option.some.inj (hkey.symm.trans hother)

end TerminalEvent

namespace Keyboard

open TerminalEvent

variable {k : Keyboard} {time : Nat} {e : TerminalEvent} {key : Key}
  {events : List (Nat × TerminalEvent)}

/-! ## One event -/

/-- A character other than the small `c` with Control is looked up. -/
theorem receive_of_char {e : KeyEvent} {c : Char} (h : e.code = .char c)
    (hc : ¬ (c = 'c' ∧ e.control = true)) :
    k.receive time e = match Layout.key? c with
      | some key => { k with keys := k.keys.press key.toByte time }
      | none => k := by
  unfold receive
  -- of the four arms only the third is for such a character
  split
  · rename_i hescape
    rw [h] at hescape
    cases hescape
  · rename_i hsmall hcontrol
    rw [h] at hsmall
    exact absurd ⟨KeyCode.char.inj hsmall, hcontrol⟩ hc
  · rename_i hchar _
    rw [h] at hchar
    cases hchar
    rfl
  · rename_i hother
    rw [h] at hother
    cases hother

/-- An event asks for halting, or it presses a key, or it changes nothing. -/
theorem notice_cases (k : Keyboard) (time : Nat) (e : TerminalEvent) :
    (e.Halts ∧ k.notice time e = { k with halted := true }) ∨
      (∃ key, e.Presses key ∧
        k.notice time e = { k with keys := k.keys.press key.toByte time }) ∨
      (¬ e.Halts ∧ (∀ key, ¬ e.Presses key) ∧ k.notice time e = k) := by
  cases e with
  | mouse | resize => exact .inr (.inr ⟨nofun, nofun, rfl⟩)
  | key e =>
    cases hcode : e.code with
    | escape => exact .inl ⟨.inl hcode, by simp [notice, receive, hcode]⟩
    | other =>
      refine .inr (.inr ⟨?_, ?_, by simp [notice, receive, hcode]⟩)
      · simp [Halts, hcode]
      · simp [Presses, hcode]
    | char c =>
      by_cases hc : c = 'c' ∧ e.control = true
      · obtain ⟨rfl, hcontrol⟩ := hc
        refine .inl ⟨(halts_iff_of_char hcode).2 ⟨rfl, hcontrol⟩, ?_⟩
        simp [notice, receive, hcode, hcontrol]
      · rw [notice, receive_of_char hcode hc]
        cases hkey : Layout.key? c with
        | some key => exact .inr (.inl ⟨key, (presses_iff_of_char hcode).2 ⟨hc, hkey⟩, rfl⟩)
        | none =>
          refine .inr (.inr ⟨?_, ?_, rfl⟩)
          · rwa [halts_iff_of_char hcode]
          · intro key hpresses
            have hsome := ((presses_iff_of_char hcode).1 hpresses).2
            rw [hkey] at hsome
            cases hsome

/-- Noticing an event halts the run if the event does, and never undoes a halt. -/
theorem halted_notice : (k.notice time e).halted = true ↔ k.halted = true ∨ e.Halts := by
  rcases notice_cases k time e with ⟨hhalts, h⟩ | ⟨key, hpresses, h⟩ | ⟨hnot, -, h⟩
  · simp [h, hhalts]
  · simp [h, hpresses.not_halts]
  · simp [h, hnot]

/-- It does not change how long keys are held. -/
theorem hold_notice : (k.notice time e).keys.hold = k.keys.hold := by
  rcases notice_cases k time e with ⟨-, h⟩ | ⟨key, -, h⟩ | ⟨-, -, h⟩
  · rw [h]
  · rw [h]
    exact KeyHold.hold_press _ _ _
  · rw [h]

/-- A press is noticed as the last one of its key. -/
theorem lastPress_notice (hpresses : e.Presses key) :
    (k.notice time e).keys.lastPress key = some time := by
  rcases notice_cases k time e with ⟨hhalts, -⟩ | ⟨pressed, hpressed, h⟩ | ⟨-, hnone, -⟩
  · exact absurd hhalts hpresses.not_halts
  · obtain rfl := hpresses.unique hpressed
    rw [h]
    show (k.keys.press key.toByte time).lastPress key = _
    rw [KeyHold.lastPress_press, if_pos (key.eq_toByte_iff.1 rfl)]
  · exact absurd hpresses (hnone key)

/-- Other events leave the last press of a key. -/
theorem lastPress_notice_of_not (hnot : ¬ e.Presses key) :
    (k.notice time e).keys.lastPress key = k.keys.lastPress key := by
  rcases notice_cases k time e with ⟨-, h⟩ | ⟨pressed, hpressed, h⟩ | ⟨-, -, h⟩
  · rw [h]
  · rw [h]
    show (k.keys.press pressed.toByte time).lastPress key = _
    rw [KeyHold.lastPress_press, if_neg]
    intro hnum
    have hsame : pressed = key := Fin.ext ((pressed.eq_toByte_iff.1 rfl).symm.trans hnum)
    exact hnot (hsame ▸ hpressed)
  · rw [h]

/-- An event that neither halts nor presses is passed by. -/
theorem notice_eq_self (hhalts : ¬ e.Halts) (hpresses : ∀ key, ¬ e.Presses key) :
    k.notice time e = k := by
  rcases notice_cases k time e with ⟨h, -⟩ | ⟨key, h, -⟩ | ⟨-, -, h⟩
  · exact absurd h hhalts
  · exact absurd h (hpresses key)
  · exact h

/-! ## Some events -/

/-- The terminal told of some events, one after the other. -/
def noticeAll (k : Keyboard) (events : List (Nat × TerminalEvent)) : Keyboard :=
  events.foldl (fun k (time, e) => k.notice time e) k

/-- The first event is noticed first. -/
theorem noticeAll_cons (k : Keyboard) (time : Nat) (e : TerminalEvent)
    (rest : List (Nat × TerminalEvent)) :
    k.noticeAll ((time, e) :: rest) = (k.notice time e).noticeAll rest := rfl

/-- More events are noticed after the first ones. -/
theorem noticeAll_append (k : Keyboard) (events more : List (Nat × TerminalEvent)) :
    k.noticeAll (events ++ more) = (k.noticeAll events).noticeAll more := List.foldl_append

/-- Halting has been asked for exactly if it was before or one of the events asks for it. -/
theorem halted_noticeAll (k : Keyboard) (events : List (Nat × TerminalEvent)) :
    (k.noticeAll events).halted = true ↔ k.halted = true ∨ ∃ event ∈ events, event.2.Halts := by
  induction events generalizing k with
  | nil => simp [noticeAll]
  | cons event rest ih =>
    obtain ⟨time, e⟩ := event
    rw [noticeAll_cons, ih, halted_notice]
    simp [or_assoc]

/-- However many events, keys are held as long as before. -/
theorem hold_noticeAll (k : Keyboard) (events : List (Nat × TerminalEvent)) :
    (k.noticeAll events).keys.hold = k.keys.hold := by
  induction events generalizing k with
  | nil => rfl
  | cons event rest ih =>
    obtain ⟨time, e⟩ := event
    rw [noticeAll_cons, ih, hold_notice]

/-- Events that do not press a key leave the time of its press alone. -/
theorem lastPress_noticeAll_of_not (k : Keyboard) (hnot : ∀ event ∈ events, ¬ event.2.Presses key) :
    (k.noticeAll events).keys.lastPress key = k.keys.lastPress key := by
  induction events generalizing k with
  | nil => rfl
  | cons event rest ih =>
    obtain ⟨time, e⟩ := event
    rw [noticeAll_cons, ih _ fun event hevent => hnot event (List.mem_cons_of_mem _ hevent)]
    exact lastPress_notice_of_not (hnot _ List.mem_cons_self)

/-- The last event that presses a key tells the time of its press. -/
theorem lastPress_noticeAll (k : Keyboard) {before after : List (Nat × TerminalEvent)}
    (hpresses : e.Presses key) (hlast : ∀ event ∈ after, ¬ event.2.Presses key) :
    (k.noticeAll (before ++ (time, e) :: after)).keys.lastPress key = some time := by
  rw [noticeAll_append, noticeAll_cons, lastPress_noticeAll_of_not _ hlast]
  exact lastPress_notice hpresses

/-- An event that neither asks for halting nor presses a key might as well not be there. -/
theorem noticeAll_skip (k : Keyboard) {before after : List (Nat × TerminalEvent)}
    (hhalts : ¬ e.Halts) (hpresses : ∀ key, ¬ e.Presses key) :
    k.noticeAll (before ++ (time, e) :: after) = k.noticeAll (before ++ after) := by
  rw [noticeAll_append, noticeAll_append, noticeAll_cons, notice_eq_self hhalts hpresses]

/-! ## A poll -/

/-- Some events, as a terminal delivers them. -/
def delivered (events : List (Nat × TerminalEvent)) : List Delivery :=
  events.map fun (time, e) => .event time e

/-- Events that are delivered are taken in, and the poll goes on with what comes after them. -/
theorem poll_append (k : Keyboard) (events : List (Nat × TerminalEvent)) (rest : List Delivery) :
    k.poll (delivered events ++ rest) = (k.noticeAll events).poll rest := by
  induction events generalizing k with
  | nil => rfl
  | cons event events ih => exact ih (k.notice event.1 event.2)

/-- A poll notices all events that are delivered. -/
theorem poll_events (k : Keyboard) (events : List (Nat × TerminalEvent)) :
    k.poll (delivered events) = (.ok (), k.noticeAll events, []) := by
  have h := poll_append k events []
  rwa [List.append_nil] at h

/-- One that fails has noticed those before the failure, and leaves those after it. -/
theorem poll_failure (k : Keyboard) (events : List (Nat × TerminalEvent)) (error : IoError)
    (rest : List Delivery) :
    k.poll (delivered events ++ .failure error :: rest) = (.error error, k.noticeAll events, rest) :=
  poll_append k events (.failure error :: rest)

/-- **A poll takes the whole queue.** Of events that are delivered without a failure none is left.
Afterwards halting has been asked for exactly if it was before, or one of the events was the escape key
or the small `c` with Control. Each key that was typed, as a character in either case that the layout
gives to it, was typed last at the time of the last such event, and every other key when it was before;
for this the small `c` with Control does not count. No other event makes a difference. And after a
failure everything is as the events before it leave it, and the error is that of the failure. -/
theorem poll_takes_queue (k : Keyboard) (events : List (Nat × TerminalEvent)) :
    let k' := (k.poll (delivered events)).2.1
    k.poll (delivered events) = (.ok (), k', []) ∧
      (k'.halted = true ↔ k.halted = true ∨ ∃ event ∈ events, event.2.Halts) ∧
      (∀ key,
        (∀ before time e after, events = before ++ (time, e) :: after → e.Presses key →
          (∀ event ∈ after, ¬ event.2.Presses key) → k'.keys.lastPress key = some time) ∧
        ((∀ event ∈ events, ¬ event.2.Presses key) →
          k'.keys.lastPress key = k.keys.lastPress key)) ∧
      k'.keys.hold = k.keys.hold ∧
      (∀ before time e after, events = before ++ (time, e) :: after → ¬ e.Halts →
        (∀ key, ¬ e.Presses key) → (k.poll (delivered (before ++ after))).2.1 = k') ∧
      ∀ error rest, k.poll (delivered events ++ .failure error :: rest) = (.error error, k', rest) := by
  intro k'
  have hpoll := poll_events k events
  have hk' : k' = k.noticeAll events := congrArg (·.2.1) hpoll
  rw [hk']
  refine ⟨hpoll, halted_noticeAll k events, ?_, hold_noticeAll k events, ?_, poll_failure k events⟩
  · intro key
    refine ⟨?_, lastPress_noticeAll_of_not k⟩
    rintro before time e after rfl hpresses hlast
    exact lastPress_noticeAll k hpresses hlast
  · rintro before time e after rfl hhalts hpresses
    rw [poll_events]
    exact (noticeAll_skip k hhalts hpresses).symm

/-- The capital with Control is an ordinary press. -/
example (k : Keyboard) (time : Nat) :
    k.poll [.event time (.key { code := .char 'C', control := true })] =
      (.ok (), { k with keys := k.keys.press 0x0B time }, []) := rfl

end Keyboard

end Chip8
