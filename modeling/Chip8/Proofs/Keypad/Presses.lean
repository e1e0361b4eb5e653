import Chip8.Keypad.Hold
import Mathlib.Data.List.Induction

/-!
# The press that holds a key

A `KeyHold` keeps one time for each key. What it has been told is a whole sequence of presses, of any
bytes and perhaps not in the order of their times; and all that counts of it is the last press of each
key.

* `Press.lastTime?` is the time of the last press of a byte in a sequence, by its place and not by its
  time; `lastTime?_eq_some_iff` says where that press stands.
* `KeyHold.lastPress_pressAll` is the induction over the sequence: the time that is kept for a key is
  that of its last press.
* `Press.InOrder`: the times never decrease, and none is to come. Then the last press of a key is the
  latest one, so that a key is held exactly if any of its presses is recent (`isHeld_iff_of_inOrder`).
* `held_by_last_press` puts them together.
-/

namespace Chip8

/-- A byte was typed at a time. -/
structure Press where
  key : UInt8
  time : Nat
  deriving DecidableEq

namespace Press

variable {key : UInt8} {presses more : List Press} {p : Press} {time now : Nat}

/-! ## The last press of a byte -/

/-- The time of the last press of a byte. -/
def lastTime? (key : UInt8) (presses : List Press) : Option Nat :=
  (presses.filter (·.key = key)).getLast?.map Press.time

/-- A key that was never pressed has no last press. -/
@[simp] theorem lastTime?_nil : lastTime? key [] = none := rfl

/-- The latest press is the last one of its key. -/
theorem lastTime?_concat (key : UInt8) (past : List Press) (p : Press) :
    lastTime? key (past ++ [p]) = if p.key = key then some p.time else lastTime? key past := by
  by_cases h : p.key = key
  · simp [lastTime?, h]
  · simp [lastTime?, h]

/-- Presses of other bytes do not matter. -/
theorem lastTime?_filter (key : UInt8) (presses : List Press) :
    lastTime? key (presses.filter (·.key = key)) = lastTime? key presses := by
  simp [lastTime?]

/-- Later presses of other keys make no difference. -/
theorem lastTime?_append_of_ne (presses : List Press) (h : ∀ p ∈ more, p.key ≠ key) :
    lastTime? key (presses ++ more) = lastTime? key presses := by
  have hnone : more.filter (·.key = key) = [] := by simpa using h
  simp [lastTime?, List.filter_append, hnone]

/-- The last press of a byte is a press of it after which there is no other. -/
theorem lastTime?_eq_some_iff :
    lastTime? key presses = some time ↔
      ∃ before after, presses = before ++ ⟨key, time⟩ :: after ∧ ∀ p ∈ after, p.key ≠ key := by
  constructor
  · induction presses using List.reverseRecOn with
    | nil => simp
    | append_singleton past p ih =>
      intro h
      rw [lastTime?_concat] at h
      split at h
      · rename_i hkey
        obtain ⟨rfl⟩ := h
        exact ⟨past, [], by simp [← hkey], by simp⟩
      · rename_i hkey
        obtain ⟨before, after, rfl, hafter⟩ := ih h
        refine ⟨before, after ++ [p], by simp, ?_⟩
        intro q hq
        rcases List.mem_append.1 hq with hq | hq
        · exact hafter q hq
        · rwa [List.mem_singleton.1 hq]
  · rintro ⟨before, after, rfl, hafter⟩
    rw [List.append_cons, lastTime?_append_of_ne _ hafter, lastTime?_concat, if_pos rfl]

/-- A byte that was pressed was pressed last at some time. -/
theorem exists_lastTime? (hp : p ∈ presses) : ∃ time, lastTime? p.key presses = some time := by
  have hne : presses.filter (·.key = p.key) ≠ [] :=
    List.ne_nil_of_mem (List.mem_filter.2 ⟨hp, by simp⟩)
  rw [lastTime?, List.getLast?_eq_some_getLast hne]
  exact ⟨_, rfl⟩

/-! ## Presses in the order of their times -/

/-- No press comes before an earlier one in time, and none after the time `now`. -/
structure InOrder (presses : List Press) (now : Nat) : Prop where
  ordered : presses.Pairwise (·.time ≤ ·.time)
  past : ∀ p ∈ presses.getLast?, p.time ≤ now

/-- In a sequence in order, the last press of a byte is the latest. -/
theorem InOrder.le_lastTime? (h : InOrder presses now) (hlast : lastTime? key presses = some time)
    (hp : p ∈ presses) (hkey : p.key = key) : p.time ≤ time := by
  obtain ⟨before, after, rfl, hafter⟩ := lastTime?_eq_some_iff.1 hlast
  rcases List.mem_append.1 hp with hbefore | hp
  · exact (List.pairwise_append.1 h.ordered).2.2 p hbefore _ List.mem_cons_self
  · rcases List.mem_cons.1 hp with rfl | hp
    · exact Nat.le_refl _
    · exact absurd hkey (hafter p hp)

end Press

namespace KeyHold

open Press

variable {presses more : List Press} {key : UInt8} {hold now later time : Nat}

/-- Bytes were typed one after the other. -/
def pressAll (h : KeyHold) (presses : List Press) : KeyHold :=
  presses.foldl (fun h p => h.press p.key p.time) h

/-- Without presses nothing changes. -/
@[simp] theorem pressAll_nil (h : KeyHold) : h.pressAll [] = h := rfl

/-- The first press is taken first. -/
@[simp] theorem pressAll_cons (h : KeyHold) (p : Press) (rest : List Press) :
    h.pressAll (p :: rest) = (h.press p.key p.time).pressAll rest := rfl

/-- More presses are taken after the first ones. -/
theorem pressAll_append (h : KeyHold) (presses more : List Press) :
    h.pressAll (presses ++ more) = (h.pressAll presses).pressAll more := List.foldl_append

/-- However many presses, keys are held as long as before. -/
@[simp] theorem hold_pressAll (h : KeyHold) (presses : List Press) :
    (h.pressAll presses).hold = h.hold := by
  induction presses generalizing h with
  | nil => rfl
  | cons p rest ih => simp [ih]

/-! ## What is kept of a sequence -/

/-- **The time that is kept for a key is that of its last press**, or the one from before. -/
theorem lastPress_pressAll (h : KeyHold) (presses : List Press) (k : Key) :
    (h.pressAll presses).lastPress k = (lastTime? k.toByte presses).or (h.lastPress k) := by
  induction presses using List.reverseRecOn with
  | nil => rfl
  | append_singleton past p ih =>
    rw [pressAll_append, pressAll_cons, pressAll_nil, lastPress_press, lastTime?_concat, ih]
    by_cases hkey : p.key.toNat = k
    · rw [if_pos hkey, if_pos (k.eq_toByte_iff.2 hkey), Option.some_or]
    · rw [if_neg hkey, if_neg (hkey <| k.eq_toByte_iff.1 ·)]

/-- Bytes that name no key leave everything as it is. -/
theorem pressAll_filter_lt (h : KeyHold) (presses : List Press) :
    h.pressAll (presses.filter (·.key.toNat < 16)) = h.pressAll presses := by
  induction presses generalizing h with
  | nil => rfl
  | cons p rest ih =>
    by_cases hkey : p.key.toNat < 16
    · rw [List.filter_cons_of_pos (by simpa using hkey), pressAll_cons, pressAll_cons, ih]
    · have hsame : h.press p.key p.time = h := by simp [press, Key.ofByte?, hkey]
      rw [List.filter_cons_of_neg (by simpa using hkey), pressAll_cons, hsame, ih]

/-- From the beginning on, a byte is held exactly if it names a key and its last press is recent. A
press that is still to come counts as one that comes now. -/
theorem isHeld_pressAll_iff :
    (({ hold } : KeyHold).pressAll presses).isHeld key now = true ↔
      key.toNat < 16 ∧ ∃ time, lastTime? key presses = some time ∧ now - time < hold := by
  unfold isHeld Key.ofByte?
  by_cases hkey : key.toNat < 16
  · have hbyte : Key.toByte ⟨key.toNat, hkey⟩ = key := ((Key.eq_toByte_iff _).2 rfl).symm
    have hnever : ({ hold } : KeyHold).lastPress ⟨key.toNat, hkey⟩ = none := by
      simp [lastPress, Vector.get]
    simp only [dif_pos hkey, lastPress_pressAll, hbyte, hnever, Option.or_none, hold_pressAll]
    cases lastTime? key presses with
    | none => simp [stillHeld]
    | some time => simp [stillHeld, hkey]
  · simp [hkey]

/-- In order, a byte is held exactly if it names a key and any of its presses is recent. -/
theorem isHeld_iff_of_inOrder (h : InOrder presses now) :
    (({ hold } : KeyHold).pressAll presses).isHeld key now = true ↔
      key.toNat < 16 ∧ ∃ p ∈ presses, p.key = key ∧ now - p.time < hold := by
  rw [isHeld_pressAll_iff]
  refine and_congr_right fun _ => ⟨?_, ?_⟩
  · rintro ⟨time, hlast, hrecent⟩
    obtain ⟨before, after, rfl, -⟩ := lastTime?_eq_some_iff.1 hlast
    exact ⟨⟨key, time⟩, by simp, rfl, hrecent⟩
  · rintro ⟨p, hp, rfl, hrecent⟩
    obtain ⟨time, hlast⟩ := exists_lastTime? hp
    have hle := h.le_lastTime? hlast hp rfl
    exact ⟨time, hlast, by omega⟩

/-- A key that has come up stays up while it is not pressed again. -/
theorem isHeld_later (hup : (({ hold } : KeyHold).pressAll presses).isHeld key now = false)
    (hlater : now ≤ later) (h : ∀ p ∈ more, p.key ≠ key) :
    (({ hold } : KeyHold).pressAll (presses ++ more)).isHeld key later = false := by
  rw [Bool.eq_false_iff] at hup ⊢
  intro hheld
  obtain ⟨hkey, time, hlast, hrecent⟩ := isHeld_pressAll_iff.1 hheld
  rw [lastTime?_append_of_ne presses h] at hlast
  exact hup (isHeld_pressAll_iff.2 ⟨hkey, time, hlast, by omega⟩)

/-- **A key is held by its last press.** After any sequence of presses a byte counts as held exactly
if it names a key and the time since its last press, or zero where that press is still to come, is
less than the hold. If the presses come in order, that is so exactly if any press of the key is so
recent. Hence neither the presses of other keys nor those of bytes that name no key matter, pressing a
key again holds it from then on, and a key that has come up stays up until it is pressed again. -/
theorem held_by_last_press (hold : Nat) (presses : List Press) (key : UInt8) (now : Nat) :
    let typed (presses : List Press) := ({ hold } : KeyHold).pressAll presses
    ((typed presses).isHeld key now = true ↔ key.toNat < 16 ∧
        ∃ time, lastTime? key presses = some time ∧ max 0 ((now : Int) - time) < hold) ∧
      (InOrder presses now → ((typed presses).isHeld key now = true ↔
        key.toNat < 16 ∧ ∃ p ∈ presses, p.key = key ∧ now - p.time < hold)) ∧
      (typed (presses.filter (·.key = key))).isHeld key now = (typed presses).isHeld key now ∧
      typed (presses.filter (·.key.toNat < 16)) = typed presses ∧
      (∀ time, key.toNat < 16 → InOrder (presses ++ [⟨key, time⟩]) now →
        ((typed presses).isHeld key now = true →
            (typed (presses ++ [⟨key, time⟩])).isHeld key now = true) ∧
          ((typed (presses ++ [⟨key, time⟩])).isHeld key now = true ↔ now - time < hold)) ∧
      ∀ more later, (∀ p ∈ more, p.key ≠ key) → now ≤ later →
        (typed presses).isHeld key now = false →
          (typed (presses ++ more)).isHeld key later = false := by
  intro typed
  refine ⟨?_, isHeld_iff_of_inOrder, ?_, pressAll_filter_lt _ _, ?_, ?_⟩
  · have hnat : ∀ time : Nat, max 0 ((now : Int) - time) < hold ↔ now - time < hold := by
      intro time
      omega
    simp only [hnat]
    exact isHeld_pressAll_iff
  · rw [Bool.eq_iff_iff, isHeld_pressAll_iff, isHeld_pressAll_iff, lastTime?_filter]
  · intro time hkey hin
    have hagain : (typed (presses ++ [⟨key, time⟩])).isHeld key now = true ↔ now - time < hold := by
      simp [typed, isHeld_pressAll_iff, lastTime?_concat, hkey]
    refine ⟨fun hheld => hagain.2 ?_, hagain⟩
    -- the last press before is no later than the press that comes now
    obtain ⟨-, before, hlast, hrecent⟩ := isHeld_pressAll_iff.1 hheld
    obtain ⟨front, back, rfl, -⟩ := lastTime?_eq_some_iff.1 hlast
    have hnew : lastTime? key (front ++ ⟨key, before⟩ :: back ++ [⟨key, time⟩]) = some time := by
      rw [lastTime?_concat, if_pos rfl]
    have hle := hin.le_lastTime? hnew (p := ⟨key, before⟩) (by simp) rfl
    exact Nat.lt_of_le_of_lt (Nat.sub_le_sub_left hle now) hrecent
  · intro more later hmore hlater hup
    exact isHeld_later hup hlater hmore

/-- Key A is pressed, and again eighty later, with key 3 and a byte that names no key in between. -/
def pressedTwice : List Press := [⟨0x0A, 0⟩, ⟨0x03, 50⟩, ⟨0x1A, 60⟩, ⟨0x0A, 80⟩]

/-- With a hold of a hundred the second press of key A holds it until the time 180. -/
theorem held_by_last_press_twice :
    InOrder pressedTwice 179 ∧
      (({ hold := 100 } : KeyHold).pressAll pressedTwice).isHeld 0x0A 179 = true ∧
      InOrder pressedTwice 180 ∧
      (({ hold := 100 } : KeyHold).pressAll pressedTwice).isHeld 0x0A 180 = false := by
  have hordered : pressedTwice.Pairwise (·.time ≤ ·.time) := by decide
  have hin : InOrder pressedTwice 179 := ⟨hordered, by decide⟩
  have hin' : InOrder pressedTwice 180 := ⟨hordered, by decide⟩
  obtain ⟨-, hheld, -⟩ := held_by_last_press 100 pressedTwice 0x0A 179
  obtain ⟨-, hheld', -⟩ := held_by_last_press 100 pressedTwice 0x0A 180
  refine ⟨hin, (hheld hin).2 (by decide), hin', ?_⟩
  rw [Bool.eq_false_iff, Ne, hheld' hin']
  decide

end KeyHold

end Chip8
