import Chip8.Machine.ReturnStack

/-!
# The return stack is a list of at most sixteen addresses

Seen from outside, sixteen slots with a depth are a list from which the latest address is taken first:
whatever pushes and pops are asked for, in any order and also after refusals, they are answered as by
the list. A return leaves its address in the slot; nobody finds it there.

* `StackRequest` is a push or a pop. `ReturnStack.serve` answers it by the slots, in place, and
  `AddressList.serve` by a list of addresses.
* `serve_of_error`: what the stack refuses has left it as it was.
* `serve_eq` is the step: a request to the stack is one to its list.
* `answers_eq` and `toList_served` are the run.
* `refines_bounded_list` puts them together.
-/

namespace Chip8

/-- Something that is asked of a stack of addresses. -/
inductive StackRequest where
  /-- Put an address on it. -/
  | push (addr : UInt16)
  /-- Take the latest one off. -/
  | pop

/-- What comes of a request: a fault, or it is granted and tells the address that is taken off. -/
abbrev StackAnswer := Except Fault (Option UInt16)

/-! ## The list -/

namespace AddressList

/-- The answer of a list of addresses, the latest first, of which it holds up to sixteen. -/
def serve : List UInt16 → StackRequest → StackAnswer × List UInt16
  | held, .push addr =>
    if held.length = 16 then (.error .stackOverflow, held) else (.ok none, addr :: held)
  | [], .pop => (.error .stackUnderflow, [])
  | addr :: held, .pop => (.ok (some addr), held)

/-- The list after a sequence of requests. -/
def served (held : List UInt16) (requests : List StackRequest) : List UInt16 :=
  requests.foldl (fun held r => (serve held r).2) held

/-- Its answers to them, each with the number of addresses afterwards. -/
def answers (held : List UInt16) : List StackRequest → List (StackAnswer × Nat)
  | [] => []
  | r :: rest => ((serve held r).1, (serve held r).2.length) :: answers (serve held r).2 rest

end AddressList

/-! ## The slots -/

namespace ReturnStack

/-- The answer of the return stack, which does what is asked in place, and the stack as it is left. -/
def serve (s : ReturnStack) : StackRequest → StackAnswer × ReturnStack
  | .push addr =>
    match (pushM addr).run s with
    | .ok _ t => (.ok none, t)
    | .error fault t => (.error fault, t)
  | .pop =>
    match popM.run s with
    | .ok addr t => (.ok (some addr), t)
    | .error fault t => (.error fault, t)

/-- The stack after a sequence of requests. -/
def served (s : ReturnStack) (requests : List StackRequest) : ReturnStack :=
  requests.foldl (fun s r => (s.serve r).2) s

/-- Its answers to them, each with the depth afterwards. -/
def answers (s : ReturnStack) : List StackRequest → List (StackAnswer × Nat)
  | [] => []
  | r :: rest => ((s.serve r).1, (s.serve r).2.depth) :: (s.serve r).2.answers rest

variable {s t : ReturnStack}

/-! ## One request -/

/-- A push that is refused leaves the stack as it is. -/
theorem serve_push_of_error {addr : UInt16} {fault : Fault} (h : s.push addr = .error fault) :
    s.serve (.push addr) = (.error fault, s) := by
  rw [serve, run_pushM, h]
  rfl

/-- One that is granted leaves the stack that it tells. -/
theorem serve_push_of_ok {addr : UInt16} (h : s.push addr = .ok t) :
    s.serve (.push addr) = (.ok none, t) := by
  rw [serve, run_pushM, h]
  rfl

/-- A pop that is refused leaves the stack as it is. -/
theorem serve_pop_of_error {fault : Fault} (h : s.pop = .error fault) :
    s.serve .pop = (.error fault, s) := by
  rw [serve, run_popM, h]
  rfl

/-- One that is granted leaves the stack that it tells. -/
theorem serve_pop_of_ok {addr : UInt16} (h : s.pop = .ok (addr, t)) :
    s.serve .pop = (.ok (some addr), t) := by
  rw [serve, run_popM, h]
  rfl

/-- **A request to the stack is one to its list**: the answer is the same, and so are the addresses
in use afterwards. -/
theorem serve_eq (s : ReturnStack) (r : StackRequest) :
    ((s.serve r).1, (s.serve r).2.toList) = AddressList.serve s.toList r := by
  cases r with
  | push addr =>
    by_cases hfull : s.depth = 16
    · rw [serve_push_of_error (s.push_eq_error addr hfull), AddressList.serve,
        if_pos (s.length_toList.trans hfull)]
    · obtain ⟨t, hpush⟩ := s.exists_push addr hfull
      have hroom : ¬ s.toList.length = 16 := by rwa [length_toList]
      rw [serve_push_of_ok hpush, AddressList.serve, if_neg hroom, toList_of_push hpush]
  | pop =>
    by_cases hempty : s.depth = 0
    · have hnil : s.toList = [] := List.eq_nil_of_length_eq_zero (s.length_toList.trans hempty)
      rw [serve_pop_of_error (s.pop_eq_error hempty), hnil, AddressList.serve]
    · obtain ⟨addr, t, hpop⟩ := s.exists_pop hempty
      rw [serve_pop_of_ok hpop, toList_of_pop hpop, AddressList.serve]

/-- The stack gives the answer of its list. -/
theorem fst_serve (s : ReturnStack) (r : StackRequest) :
    (s.serve r).1 = (AddressList.serve s.toList r).1 := congrArg Prod.fst (serve_eq s r)

/-- Its addresses become those of the list. -/
theorem toList_serve (s : ReturnStack) (r : StackRequest) :
    (s.serve r).2.toList = (AddressList.serve s.toList r).2 := congrArg Prod.snd (serve_eq s r)

/-- A push is refused when sixteen addresses are held, and for no other reason. -/
theorem push_eq_error_iff {addr : UInt16} {fault : Fault} :
    s.push addr = .error fault ↔ s.depth = 16 ∧ fault = .stackOverflow := by
  by_cases hfull : s.depth = 16
  · rw [s.push_eq_error addr hfull]
    simp [hfull, eq_comm]
  · obtain ⟨t, hpush⟩ := s.exists_push addr hfull
    rw [hpush]
    simp [hfull]

/-- A pop is refused when none is held, and for no other reason. -/
theorem pop_eq_error_iff {fault : Fault} :
    s.pop = .error fault ↔ s.depth = 0 ∧ fault = .stackUnderflow := by
  by_cases hempty : s.depth = 0
  · rw [s.pop_eq_error hempty]
    simp [hempty, eq_comm]
  · obtain ⟨addr, t, hpop⟩ := s.exists_pop hempty
    rw [hpop]
    simp [hempty]

/-- A request that is refused leaves the stack as it is. -/
theorem serve_of_error {r : StackRequest} {fault : Fault} (h : (s.serve r).1 = .error fault) :
    (s.serve r).2 = s := by
  cases r with
  | push addr =>
    cases hpush : s.push addr with
    | ok t =>
      rw [serve_push_of_ok hpush] at h
      cases h
    | error _ => rw [serve_push_of_error hpush]
  | pop =>
    cases hpop : s.pop with
    | ok taken =>
      rw [serve_pop_of_ok hpop] at h
      cases h
    | error _ => rw [serve_pop_of_error hpop]

/-! ## A sequence of requests -/

/-- **The stack answers as its list does**, whatever is asked for. -/
theorem answers_eq (s : ReturnStack) (requests : List StackRequest) :
    s.answers requests = AddressList.answers s.toList requests := by
  induction requests generalizing s with
  | nil => rfl
  | cons r rest ih =>
    rw [answers, AddressList.answers, ih, fst_serve, ← length_toList, toList_serve]

/-- After a sequence of requests, too, the stack's addresses are those of the list. -/
theorem toList_served (s : ReturnStack) (requests : List StackRequest) :
    (s.served requests).toList = AddressList.served s.toList requests := by
  induction requests generalizing s with
  | nil => rfl
  | cons r rest ih =>
    show ((s.serve r).2.served rest).toList = AddressList.served (AddressList.serve s.toList r).2 rest
    rw [ih, toList_serve]

/-- Freed slots are not part of the list. -/
theorem toList_congr (hdepth : t.depth = s.depth)
    (hslots : ∀ i (_ : i < 16), i < s.depth → t.slots[i] = s.slots[i]) : t.toList = s.toList := by
  unfold toList
  rw [hdepth]
  refine congrArg List.reverse (List.ext_getElem (by simp) ?_)
  intro i hi hi'
  have hused : i < s.depth := Nat.lt_of_lt_of_le hi (List.length_take_le _ _)
  have hin : i < 16 := Nat.lt_of_lt_of_le hused s.depth_le
  simpa using hslots i hin hused

/-- **The return stack refines a list of at most sixteen addresses.** To any sequence of pushes and
pops an empty stack gives the answers of an empty list, with the same number of addresses after each of
them. After such a sequence a push is refused exactly when sixteen addresses are held, and a pop
exactly when none is. What is refused has no effect on the depth or on any later answer. Nor have the
slots that are not in use: a stack that has anything else in them gives the same answers. -/
theorem refines_bounded_list (requests : List StackRequest) :
    let s := empty.served requests
    let held := AddressList.served [] requests
    empty.answers requests = AddressList.answers [] requests ∧
      s.toList = held ∧ s.depth = held.length ∧
      (∀ addr fault, s.push addr = .error fault ↔ held.length = 16 ∧ fault = .stackOverflow) ∧
      (∀ fault, s.pop = .error fault ↔ held.length = 0 ∧ fault = .stackUnderflow) ∧
      (∀ r fault, (s.serve r).1 = .error fault →
        (s.serve r).2.depth = s.depth ∧ ∀ later, (s.serve r).2.answers later = s.answers later) ∧
      ∀ t : ReturnStack, t.depth = s.depth →
        (∀ i (_ : i < 16), i < s.depth → t.slots[i] = s.slots[i]) →
        ∀ later, t.answers later = s.answers later := by
  intro s held
  have hheld : s.toList = held := toList_served empty requests
  have hdepth : s.depth = held.length := by rw [← hheld, length_toList]
  refine ⟨answers_eq empty requests, hheld, hdepth, ?_, ?_, ?_, ?_⟩
  · intro addr fault
    rw [← hdepth]
    exact push_eq_error_iff
  · intro fault
    rw [← hdepth]
    exact pop_eq_error_iff
  · intro r fault hrefused
    rw [serve_of_error hrefused]
    exact ⟨rfl, fun _ => rfl⟩
  · intro t hsame hslots later
    rw [answers_eq, answers_eq, toList_congr hsame hslots]

/-- Sixteen return addresses, two bytes apart. -/
def sixteen : List StackRequest := (List.range 16).map fun n => .push (.ofNat (0x200 + 2 * n))

/-- A seventeenth address is refused, and the sixteenth is still the first to be taken off. What is in
the slots of a stack that is not in use is not seen. -/
theorem refines_bounded_list_full :
    (empty.served sixteen).push 0x300 = .error .stackOverflow ∧
      ((empty.served sixteen).serve (.push 0x300)).2.depth = 16 ∧
      ((empty.served sixteen).serve (.push 0x300)).2.answers [.pop] = [(.ok (some 0x21E), 15)] ∧
      ∀ later, answers ⟨.replicate 16 0xFFFF, 0, zero_le_slots⟩ later = empty.answers later := by
  obtain ⟨-, -, hdepth, hpush, -, hrefused, -⟩ := refines_bounded_list sixteen
  have hfull : (AddressList.served [] sixteen).length = 16 := by decide
  have hover : (empty.served sixteen).push 0x300 = .error .stackOverflow :=
    (hpush 0x300 _).2 ⟨hfull, rfl⟩
  have hserve : ((empty.served sixteen).serve (.push 0x300)).1 = .error .stackOverflow := by
    rw [serve_push_of_error hover]
  obtain ⟨hsame, hlater⟩ := hrefused _ _ hserve
  obtain ⟨-, -, -, -, -, -, hunused⟩ := refines_bounded_list []
  refine ⟨hover, hsame.trans (hdepth.trans hfull), ?_, ?_⟩
  · rw [hlater, answers_eq, toList_served]
    rfl
  · intro later
    refine hunused ⟨.replicate 16 0xFFFF, 0, zero_le_slots⟩ rfl ?_ later
    intro i _ hused
    exact absurd hused (Nat.not_lt_zero i)

end ReturnStack

end Chip8
