import Chip8.Fault
import Chip8.InPlace

/-!
# The return stack

Calls remember where to go on afterwards in sixteen slots. A return frees the latest slot but
leaves the address in it, until a later call writes over it.

`ReturnStack.toList` is what the stack means: the addresses in use, the latest first. A push
puts an address in front of that list unless it is full, a pop takes the first one off unless
it is empty, and neither looks at the freed slots.

`pushM` and `popM` are the same two done in place, one change after the other. `run_pushM` and
`run_popM` say that they come to what `push` and `pop` tell, and that a refusal finds nothing
changed yet.
-/

namespace Chip8

/-- Sixteen slots, of which the first `depth` are in use. -/
structure ReturnStack where
  slots : Vector UInt16 16
  depth : Nat
  depth_le : depth ≤ 16

namespace ReturnStack

/-- An empty stack has its depth in range. -/
theorem zero_le_slots : 0 ≤ 16 := by decide

/-- No address in use. -/
def empty : ReturnStack := ⟨.replicate 16 0, 0, zero_le_slots⟩

/-- The stack with one more address, or the fault that there is no slot left. -/
def push (s : ReturnStack) (addr : UInt16) : Except Fault ReturnStack :=
  if h : s.depth < 16 then .ok ⟨s.slots.set s.depth addr, s.depth + 1, h⟩
  else .error .stackOverflow

/-- The latest address and the stack without it, or the fault that there is none. -/
def pop (s : ReturnStack) : Except Fault (UInt16 × ReturnStack) :=
  if h : 0 < s.depth then
    have := s.depth_le
    .ok (s.slots[s.depth - 1], ⟨s.slots, s.depth - 1, by omega⟩)
  else .error .stackUnderflow

/-- The push in place: the free slot is looked for, then written, then counted in. -/
def pushM (addr : UInt16) : EStateM Fault ReturnStack Unit := do
  let s ← get
  if free : s.depth < 16 then
    let slots := s.slots.set s.depth addr
    set (⟨slots, s.depth, s.depth_le⟩ : ReturnStack)
    set (⟨slots, s.depth + 1, free⟩ : ReturnStack)
  else throw .stackOverflow

/-- The pop in place: the depth goes down unless it is zero, and then the slot is read. -/
def popM : EStateM Fault ReturnStack UInt16 := do
  let s ← get
  if used : 0 < s.depth then
    have := s.depth_le
    set (⟨s.slots, s.depth - 1, by omega⟩ : ReturnStack)
    return s.slots[s.depth - 1]
  else throw .stackUnderflow

/-- The addresses in use, the latest first. -/
def toList (s : ReturnStack) : List UInt16 := (s.slots.toList.take s.depth).reverse

variable (s : ReturnStack) (addr : UInt16)

/-- As many addresses are in use as the depth says. -/
@[simp] theorem length_toList : s.toList.length = s.depth := by
  have := s.depth_le
  simp [toList]
  omega

/-- A full stack takes no address. -/
theorem push_eq_error (h : s.depth = 16) : s.push addr = .error .stackOverflow := by
  rw [push, dif_neg (by omega)]

/-- An empty stack has none to give. -/
theorem pop_eq_error (h : s.depth = 0) : s.pop = .error .stackUnderflow := by
  rw [pop, dif_neg (by omega)]

/-- There is room for another address unless all sixteen slots are in use. -/
theorem exists_push (h : s.depth ≠ 16) : ∃ t, s.push addr = .ok t := by
  have hle := s.depth_le
  rw [push, dif_pos (by omega)]
  exact ⟨_, rfl⟩

/-- There is an address to take unless no slot is in use. -/
theorem exists_pop (h : s.depth ≠ 0) : ∃ addr t, s.pop = .ok (addr, t) := by
  rw [pop, dif_pos (by omega)]
  exact ⟨_, _, rfl⟩

/-- A push in place that is refused has changed nothing. -/
theorem run_pushM :
    (pushM addr).run s = InPlace.allOrNothing s ((s.push addr).map ((), ·)) := by
  simp only [pushM, EStateM.run_bind, EStateM.run_get]
  by_cases free : s.depth < 16
  · rw [dif_pos free, push, dif_pos free]
    rfl
  · rw [dif_neg free, push, dif_neg free]
    rfl

/-- Nor has a pop. -/
theorem run_popM : popM.run s = InPlace.allOrNothing s s.pop := by
  simp only [popM, EStateM.run_bind, EStateM.run_get]
  by_cases used : 0 < s.depth
  · rw [dif_pos used, pop, dif_pos used]
    rfl
  · rw [dif_neg used, pop, dif_neg used]
    rfl

/-- A push that succeeds found a free slot. -/
theorem lt_of_push {s t : ReturnStack} {addr : UInt16} (h : s.push addr = .ok t) :
    s.depth < 16 := by
  unfold push at h
  split at h
  · assumption
  · cases h

/-- A pop that succeeds found a slot in use. -/
theorem pos_of_pop {s t : ReturnStack} {addr : UInt16} (h : s.pop = .ok (addr, t)) :
    0 < s.depth := by
  unfold pop at h
  split at h
  · assumption
  · cases h

/-- A push that succeeds puts the address in front. -/
theorem toList_of_push {s t : ReturnStack} {addr : UInt16} (h : s.push addr = .ok t) :
    t.toList = addr :: s.toList := by
  unfold push at h
  split at h
  · rename_i hd
    cases h
    simp [toList, Vector.toList_set, List.take_add_one, List.take_set_of_le, hd]
  · cases h

/-- A pop that succeeds takes the first address off. -/
theorem toList_of_pop {s t : ReturnStack} {addr : UInt16} (h : s.pop = .ok (addr, t)) :
    s.toList = addr :: t.toList := by
  unfold pop at h
  split at h
  · rename_i hd
    cases h
    have hle := s.depth_le
    obtain ⟨d, hd'⟩ : ∃ d, s.depth = d + 1 := ⟨s.depth - 1, by omega⟩
    simp [toList, hd', List.take_add_one, show d < 16 by omega]
  · cases h

/-! Slot by slot, freed slots included: a push sets the slot above the ones in use, and a pop
leaves them all as they are. -/

/-- A push counts its address in. -/
theorem depth_of_push {s t : ReturnStack} {addr : UInt16} (h : s.push addr = .ok t) :
    t.depth = s.depth + 1 := by
  unfold push at h
  split at h
  · cases h
    rfl
  · cases h

/-- A push sets the slot above those in use, and no other. -/
theorem getElem_of_push {s t : ReturnStack} {addr : UInt16} (h : s.push addr = .ok t) (i : Nat)
    (hi : i < 16) : t.slots[i] = if s.depth = i then addr else s.slots[i] := by
  unfold push at h
  split at h
  · rename_i hd
    cases h
    exact Vector.getElem_set hd hi
  · cases h

/-- A pop counts its address out. -/
theorem depth_of_pop {s t : ReturnStack} {addr : UInt16} (h : s.pop = .ok (addr, t)) :
    s.depth = t.depth + 1 := by
  unfold pop at h
  split at h
  · rename_i hd
    cases h
    exact (Nat.sub_add_cancel hd).symm
  · cases h

/-- A pop leaves every slot as it is, its own included. -/
theorem slots_of_pop {s t : ReturnStack} {addr : UInt16} (h : s.pop = .ok (addr, t)) :
    t.slots = s.slots := by
  unfold pop at h
  split at h
  · cases h
    rfl
  · cases h

/-- The address that is popped was in the topmost slot in use. -/
theorem getElem_of_pop {s t : ReturnStack} {addr : UInt16} (h : s.pop = .ok (addr, t))
    (hi : t.depth < 16) : s.slots[t.depth] = addr := by
  unfold pop at h
  split at h
  · cases h
    rfl
  · cases h

end ReturnStack

end Chip8
