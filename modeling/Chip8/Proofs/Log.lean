import Chip8.Proofs.Instruction.Assembler
import Chip8.Proofs.Keypad.Stutter
import Chip8.Proofs.Machine.FaultConditions

/-!
# What a run logs

A cycle that finds an instruction logs a line with it and its address before it executes it, so the
line is there whatever comes of the instruction. The cycle that begins a wait for a key logs a second
line. Nothing else is logged.

* `Fault.isLost` tells the faults of a cycle that finds no instruction from the others:
  `isLost_of_fetch_error` and `isLost_of_faultOf`.
* `Turn.log` is the log of one cycle, whose outcome tells whether it found an instruction; `Vm.lines` is the log of a sequence of calls, line by line.
* `lines_of_waits`: a wait is told of once, however often it is polled.
* `readTrace?` reads the address and the instruction back from a line, and `filterMap_readTrace?_lines`
  says that reading a log gives what the cycles have decoded.
* `log_faithful` puts them together.
-/

namespace Chip8

/-! ## Cycles that find no instruction -/

/-- The fault says that there is no instruction at the program counter. -/
def Fault.isLost : Fault → Bool
  | badProgramCounter => true
  | unknownInstruction _ => true
  | _ => false

/-- The cycle found no instruction. -/
def Outcome.isLost : Outcome → Bool
  | .failed (.fatal _ fault) => fault.isLost
  | _ => false

namespace Machine

variable {keys : KeySet} {m : Machine} {ins : Instruction} {e : Effect} {fault : Fault}

/-- Where no instruction is found, the fault says so. -/
theorem isLost_of_fetch_error (h : m.fetch = .error fault) : fault.isLost = true := by
  rcases fetch_eq_error_iff.1 h with ⟨rfl, -⟩ | ⟨word, rfl, -, -⟩
  · rfl
  · rfl

/-- Where an instruction is found, it raises none of the faults of finding one. -/
theorem isLost_of_faultOf (h : m.fetch = .ok ins) (hf : m.faultOf ins = some fault) :
    fault.isLost = false := by
  have hraises : m.Raises fault := fault?_eq_some_iff.1 ((fault?_of_fetch h).trans hf)
  cases hraises with
  | badProgramCounter hplace =>
    rw [fetch_eq_error_iff.2 (.inl ⟨rfl, hplace⟩)] at h
    cases h
  | unknownInstruction hword hnone =>
    rw [fetch_eq_error_iff.2 (.inr ⟨_, rfl, hword, hnone⟩)] at h
    cases h
  | _ => rfl

/-- A wait is said to begin if the instruction waits and none was under way. -/
theorem Completes.waitBegan_iff (h : Completes keys m ins e) :
    e.waitBegan = true ↔ e.flow = .wait ∧ m.keyWait = none := by
  cases h with
  | waitBegins x hnone => exact iff_of_true rfl ⟨rfl, hnone⟩
  | waitGoesOn x hsome =>
    refine iff_of_false Bool.false_ne_true ?_
    rintro ⟨-, hnone⟩
    rw [hsome] at hnone
    cases hnone
  | skip _ condition =>
    refine iff_of_false Bool.false_ne_true ?_
    rintro ⟨hwait, -⟩
    cases condition
    · cases hwait
    · cases hwait
  | _ =>
    refine iff_of_false Bool.false_ne_true ?_
    rintro ⟨hwait, -⟩
    cases hwait

end Machine

namespace Vm

open Machine

variable {δ : Type} {vm : Vm δ} {display : Display δ} {keys : KeySet} {result : Report × Vm δ}

/-! ## One cycle -/

/-- A cycle finds no instruction and logs nothing, or it finds one and logs it, and with it that it
begins a wait if it does. -/
theorem Turn.log (h : Turn display keys vm result) :
    (result.1.outcome.isLost = true ∧ (∃ fault, vm.machine.fetch = .error fault) ∧
        result.1.log = []) ∨
      (result.1.outcome.isLost = false ∧ ∃ ins began, vm.machine.fetch = .ok ins ∧
        result.1.log = logOf vm.machine.registers.pc ins began ∧
        (began = true ↔
          result.1.outcome = .completed .waiting ∧ vm.machine.keyWait = none)) := by
  cases h with
  | lost hf => exact .inl ⟨isLost_of_fetch_error hf, ⟨_, hf⟩, rfl⟩
  | faults hf hfault =>
    refine .inr ⟨isLost_of_faultOf hf hfault, _, _, hf, rfl, ?_⟩
    exact iff_of_false Bool.false_ne_true fun h => nomatch h.1
  | waits h hw =>
    refine .inr ⟨rfl, _, _, h.fetched, rfl, ?_⟩
    rw [h.completes.waitBegan_iff]
    exact and_congr_left' (iff_of_true hw rfl)
  | runs h hw | shows h hw | refused h hw =>
    refine .inr ⟨rfl, _, _, h.fetched, rfl, ?_⟩
    rw [h.completes.waitBegan_iff]
    exact and_congr_left' (iff_of_false hw nofun)

/-! ## A sequence of calls -/

/-- The lines that the cycles of a sequence log, in order. -/
def lines (vm : Vm δ) (calls : List (Call δ)) : List String :=
  (vm.reports calls).flatMap fun report => report.log.map Message.text

/-- More calls log after the first ones. -/
theorem lines_append (vm : Vm δ) (calls more : List (Call δ)) :
    vm.lines (calls ++ more) = vm.lines calls ++ (vm.afterAll calls).lines more := by
  rw [lines, reports_append, List.flatMap_append]
  rfl

/-- A cycle in front logs in front. -/
theorem lines_cycle (vm : Vm δ) (display : Display δ) (keys : KeySet) (rest : List (Call δ)) :
    vm.lines (.cycle display keys :: rest) =
      (vm.cycle display keys).1.log.map Message.text ++
        (vm.cycle display keys).2.lines rest := rfl

/-- A cycle more logs its own lines last. -/
theorem lines_concat_cycle (vm : Vm δ) (past : List (Call δ)) (display : Display δ)
    (keys : KeySet) :
    vm.lines (past ++ [.cycle display keys]) =
      vm.lines past ++ ((vm.afterAll past).cycle display keys).1.log.map Message.text := by
  rw [lines_append, lines_cycle]
  exact congrArg (vm.lines past ++ ·) (List.append_nil _)

/-- A tick more logs nothing. -/
theorem lines_concat_tick (vm : Vm δ) (past : List (Call δ)) :
    vm.lines (past ++ [.tick]) = vm.lines past := by
  rw [lines_append]
  exact List.append_nil _

/-! ## Waits -/

/-- Only a wait for a key waits. -/
theorem Turn.fetch_of_waiting (h : Turn display keys vm result)
    (hout : result.1.outcome = .completed .waiting) :
    ∃ x, vm.machine.fetch = .ok (.awaitKey x) := by
  cases h with
  | waits h hw =>
    obtain ⟨x, rfl⟩ := h.completes.awaits_of_wait hw
    exact ⟨x, h.fetched⟩
  | lost | faults | runs | shows | refused => cases hout

/-- A cycle that waits logs its instruction, and that the wait begins if none was under way. -/
theorem Turn.log_of_waiting (h : Turn display keys vm result)
    (hout : result.1.outcome = .completed .waiting) {ins : Instruction}
    (hfetch : vm.machine.fetch = .ok ins) :
    (vm.machine.keyWait = none → result.1.log =
        [.executing vm.machine.registers.pc ins, .waiting vm.machine.registers.pc]) ∧
      (vm.machine.keyWait ≠ none → result.1.log = [.executing vm.machine.registers.pc ins]) := by
  rcases h.log with ⟨-, ⟨fault, hfault⟩, -⟩ | ⟨-, found, began, hfound, hlog, hbegan⟩
  · rw [hfetch] at hfault
    cases hfault
  · obtain rfl : ins = found := Except.ok.inj (hfetch.symm.trans hfound)
    rw [hlog]
    constructor
    · intro hnone
      rw [hbegan.2 ⟨hout, hnone⟩]
      rfl
    · intro hsome
      rw [Bool.eq_false_iff.2 fun htrue => hsome (hbegan.1 htrue).2]
      rfl

/-- While a wait is under way, every poll logs the same line. -/
theorem lines_of_polls {ins : Instruction} {calls : List (Call δ)}
    (hfetch : vm.machine.fetch = .ok ins) (hwait : vm.machine.keyWait ≠ none)
    (hall : ∀ report ∈ vm.reports calls, report.outcome = .completed .waiting) :
    vm.lines calls = List.replicate (vm.reports calls).length
      (Message.executing vm.machine.registers.pc ins).text := by
  induction calls generalizing vm with
  | nil => rfl
  | cons call rest ih =>
    cases call with
    | cycle display keys =>
      have hturn := turn_cycle display keys vm
      have hout : (vm.cycle display keys).1.outcome = .completed .waiting :=
        hall _ List.mem_cons_self
      -- the next poll stands at the same instruction, and the wait is still under way
      obtain ⟨held, hafter⟩ := hturn.machine_of_waiting hout
      rw [lines_cycle, (hturn.log_of_waiting hout hfetch).2 hwait, reports, List.length_cons,
        List.replicate_succ, hafter]
      apply congrArg (List.cons _)
      apply ih
      · exact (fetch_congr rfl rfl).trans hfetch
      · exact Option.some_ne_none held
      · intro report hreport
        rw [← hafter] at hreport
        exact hall report (List.mem_cons_of_mem _ hreport)
    | tick => exact @ih vm.tick hfetch hwait hall

/-- **A wait is told of once.** Polls that all wait, the first of which begins the wait, log the
instruction each time and that the wait begins after the first. -/
theorem lines_of_waits {calls : List (Call δ)} (hnone : vm.machine.keyWait = none)
    (hsome : vm.reports calls ≠ [])
    (hall : ∀ report ∈ vm.reports calls, report.outcome = .completed .waiting) :
    ∃ x, vm.machine.fetch = .ok (.awaitKey x) ∧ vm.lines calls =
      (Message.executing vm.machine.registers.pc (.awaitKey x)).text ::
        (Message.waiting vm.machine.registers.pc).text ::
        List.replicate ((vm.reports calls).length - 1)
          (Message.executing vm.machine.registers.pc (.awaitKey x)).text := by
  induction calls generalizing vm with
  | nil => exact absurd rfl hsome
  | cons call rest ih =>
    cases call with
    | cycle display keys =>
      have hturn := turn_cycle display keys vm
      have hout : (vm.cycle display keys).1.outcome = .completed .waiting :=
        hall _ List.mem_cons_self
      obtain ⟨x, hfetch⟩ := hturn.fetch_of_waiting hout
      obtain ⟨held, hafter⟩ := hturn.machine_of_waiting hout
      refine ⟨x, hfetch, ?_⟩
      have hpolls : (vm.cycle display keys).2.lines rest =
          List.replicate ((vm.cycle display keys).2.reports rest).length
            (Message.executing vm.machine.registers.pc (.awaitKey x)).text := by
        have hall' : ∀ report ∈ (vm.cycle display keys).2.reports rest,
            report.outcome = .completed .waiting :=
          fun report hreport => hall report (List.mem_cons_of_mem _ hreport)
        rw [hafter] at hall' ⊢
        exact lines_of_polls ((fetch_congr rfl rfl).trans hfetch) (Option.some_ne_none held) hall'
      rw [lines_cycle, (hturn.log_of_waiting hout hfetch).1 hnone, hpolls]
      rfl
    | tick => exact @ih vm.tick hnone hsome hall

/-! ## Reading a log -/

/-- The addresses and the instructions that the cycles of a sequence have decoded, in order. -/
def decoded (vm : Vm δ) : List (Call δ) → List (UInt16 × Instruction)
  | [] => []
  | .cycle display keys :: rest =>
    (vm.machine.fetch.toOption.map (vm.machine.registers.pc, ·)).toList ++
      (vm.cycle display keys).2.decoded rest
  | .tick :: rest => vm.tick.decoded rest

end Vm

/-- The address and the instruction that a line tells of, if it is one that tells of an instruction. -/
def readTrace? (line : String) : Option (UInt16 × Instruction) :=
  match line.toList with
  | 'T' :: 'R' :: 'A' :: 'C' :: 'E' :: ' ' :: '0' :: 'x' :: rest =>
    (Instruction.assemble? (String.ofList ((rest.dropWhile (· != ':')).drop 2))).map
      (.ofNat (Hexadecimal.value (rest.takeWhile (· != ':'))), ·)
  | _ => none

/-- The line of an instruction, in characters. -/
theorem toList_text_executing (pc : UInt16) (ins : Instruction) :
    (Message.executing pc ins).text.toList =
      'T' :: 'R' :: 'A' :: 'C' :: 'E' :: ' ' :: '0' :: 'x' ::
        ((Hexadecimal.digits pc.toNat).leftpad 3 '0' ++ ':' :: ' ' :: ins.text.toList) := by
  show ("TRACE " ++ Hexadecimal.marked 5 pc.toNat ++ ": " ++ ins.text).toList = _
  simp only [String.toList_append, Hexadecimal.toList_marked]
  simp

/-- The line of a wait begins with another letter. -/
theorem toList_text_waiting (pc : UInt16) :
    ∃ rest, (Message.waiting pc).text.toList = 'D' :: rest := by
  show ∃ rest, ("DEBUG waiting for a key at " ++ Hexadecimal.marked 5 pc.toNat).toList = _
  rw [String.toList_append]
  exact ⟨_, rfl⟩

/-- There is no colon among digits. -/
theorem ne_colon_of_mem_leftpad {k n : Nat} {c : Char}
    (h : c ∈ (Hexadecimal.digits n).leftpad k '0') : (c != ':') = true := by
  rcases List.mem_append.1 h with hzero | hdigit
  · rw [List.eq_of_mem_replicate hzero]
    rfl
  · obtain ⟨d, hd, rfl⟩ := Hexadecimal.exists_digitChar hdigit
    have hall : ∀ d : Fin 16, (d.val.digitChar != ':') = true := by decide
    exact hall ⟨d, hd⟩

/-- **Every line that tells of an instruction is read back.** -/
theorem readTrace?_executing (pc : UInt16) (ins : Instruction) :
    readTrace? (Message.executing pc ins).text = some (pc, ins) := by
  have hdigits : ∀ c ∈ (Hexadecimal.digits pc.toNat).leftpad 3 '0', (c != ':') = true :=
    fun c hc => ne_colon_of_mem_leftpad hc
  rw [readTrace?, toList_text_executing]
  simp only [List.dropWhile_append_of_pos hdigits, List.takeWhile_append_of_pos hdigits]
  simp only [List.takeWhile_cons, List.dropWhile_cons, bne_self_eq_false, Bool.false_eq_true,
    if_false, List.append_nil, List.drop_succ_cons, List.drop_zero, String.ofList_toList,
    Instruction.assemble?_text, Hexadecimal.value_leftpad_digits, UInt16.ofNat_toNat,
    Option.map_some]

/-- So it is not taken for the line of an instruction. -/
theorem readTrace?_waiting (pc : UInt16) : readTrace? (Message.waiting pc).text = none := by
  obtain ⟨rest, hline⟩ := toList_text_waiting pc
  rw [readTrace?, hline]
  simp

namespace Vm

open Machine

variable {δ : Type}

/-- **A log tells what has been decoded**: its lines are read back, one by one. -/
theorem filterMap_readTrace?_lines (vm : Vm δ) (calls : List (Call δ)) :
    (vm.lines calls).filterMap readTrace? = vm.decoded calls := by
  induction calls generalizing vm with
  | nil => rfl
  | cons call rest ih =>
    cases call with
    | tick => exact ih vm.tick
    | cycle display keys =>
      rw [lines_cycle, List.filterMap_append, ih, decoded]
      apply congrArg (· ++ _)
      rcases (turn_cycle display keys vm).log with
        ⟨-, ⟨fault, hfault⟩, hlog⟩ | ⟨-, ins, began, hfetch, hlog, -⟩
      · rw [hlog, hfault]
        rfl
      · rw [hlog, hfetch]
        cases began with
        | false => simp [logOf, readTrace?_executing, Except.toOption]
        | true => simp [logOf, readTrace?_executing, readTrace?_waiting, Except.toOption]

/-- **The log is faithful.** Along every sequence of calls, ticks log nothing, nor does a cycle that
finds no instruction. Every other cycle, whatever comes of it, logs one line with the program counter
before it and the instruction that is decoded there, and one more line after that exactly if it waits
for a key and the cycle before it did not. So a wait is told of once, however many cycles it takes; and
the lines, read one by one, tell the addresses and the instructions that were decoded, in order. -/
theorem log_faithful (memory : Memory) (seed : UInt64) (screen : δ) (past : List (Call δ)) :
    let start := boot memory seed screen
    let vm := start.afterAll past
    let pc := vm.machine.registers.pc
    let trace := fun ins : Instruction =>
      "TRACE " ++ Hexadecimal.marked 5 pc.toNat ++ ": " ++ ins.text
    let wait := "DEBUG waiting for a key at " ++ Hexadecimal.marked 5 pc.toNat
    start.lines [] = [] ∧ start.lines (past ++ [.tick]) = start.lines past ∧
      (∀ (display : Display δ) (keys : KeySet),
        let outcome := (vm.cycle display keys).1.outcome
        let lines := start.lines (past ++ [.cycle display keys])
        let begins := outcome = .completed .waiting ∧ ¬ LastWaited (start.reports past)
        (outcome.isLost = true → lines = start.lines past) ∧
          (outcome.isLost = false → ∃ word ins, vm.machine.memory.word pc.toNat = .ok word ∧
            Instruction.decode word = .ok ins ∧
            (begins → lines = start.lines past ++ [trace ins, wait]) ∧
            (¬ begins → lines = start.lines past ++ [trace ins]))) ∧
      (∀ polls : List (Call δ), ¬ LastWaited (start.reports past) → vm.reports polls ≠ [] →
        (∀ report ∈ vm.reports polls, report.outcome = .completed .waiting) →
        ∃ x, vm.machine.fetch = .ok (.awaitKey x) ∧
          start.lines (past ++ polls) = start.lines past ++ trace (.awaitKey x) :: wait ::
            List.replicate ((vm.reports polls).length - 1) (trace (.awaitKey x))) ∧
      (start.lines past).filterMap readTrace? = start.decoded past := by
  intro start vm pc trace wait
  -- the machine knows whether the cycle before waited by what its wait remembers
  have hwait : vm.machine.keyWait = none ↔ ¬ LastWaited (start.reports past) :=
    (not_iff_comm.1 (keyWait_afterAll rfl past)).symm
  refine ⟨rfl, lines_concat_tick start past, ?_, ?_, filterMap_readTrace?_lines start past⟩
  · intro display keys outcome lines begins
    have hlines : lines =
        start.lines past ++ (vm.cycle display keys).1.log.map Message.text :=
      lines_concat_cycle start past display keys
    rcases (turn_cycle display keys vm).log with
      ⟨hlost, -, hlog⟩ | ⟨hfound, ins, began, hfetch, hlog, hbegan⟩
    · refine ⟨fun _ => ?_, fun hfound => ?_⟩
      · rw [hlines, hlog]
        exact List.append_nil _
      · exact absurd (hlost.symm.trans hfound) nofun
    · refine ⟨fun hlost => ?_, fun _ => ?_⟩
      · exact absurd (hlost.symm.trans hfound) nofun
      · obtain ⟨word, hword, hdecode⟩ := word_of_fetch hfetch
        rw [hwait] at hbegan
        refine ⟨word, ins, hword, hdecode, fun hbegins => ?_, fun hnot => ?_⟩
        · rw [hlines, hlog, hbegan.2 hbegins]
          rfl
        · rw [hlines, hlog, Bool.eq_false_iff.2 fun htrue => hnot (hbegan.1 htrue)]
          rfl
  · intro polls hlast hsome hall
    obtain ⟨x, hfetch, hpolls⟩ := lines_of_waits (hwait.2 hlast) hsome hall
    refine ⟨x, hfetch, ?_⟩
    rw [lines_append, hpolls]
    rfl

end Vm

end Chip8
