import Chip8.Display.Recorder
import Chip8.Memory.Program
import Chip8.Proofs.Machine.FaultConditions
import Chip8.Proofs.Machine.Untimed
import Chip8.Proofs.Run.Rounds

/-!
# How cycles are batched is invisible

A run executes cycles in batches, as many as the passed time makes due, and lets the timers tick in
between. A program that looks neither at the delay timer nor at the keys cannot tell: with a limit,
the run comes to the state to which that many cycles in a row lead, but for the timers.

* `Vm.straight` calls for cycles in a row until so many have succeeded or one fails.
* `Vm.Unsensing` says of a state that none of the next instructions looks at the timers or the keys.
* `Run.Along`: what a run has left to execute leads straight to a given end. A cycle of the run is
  the first of what is left (`along_cycle`), and nothing else that happens in a run makes a difference.
* `fares_batch`, `fares_round` and `fares_rounds` follow the run to its ending.
* `batching_invisible` compares the run with the cycles in a row, and two runs with one.
-/

namespace Chip8

namespace Vm

variable {δ : Type}

/-- Up to `n` cycles in a row with the same keys down. The first that fails is the last, and its
error is given. -/
def straight (display : Display δ) (keys : KeySet) : Nat → Vm δ → Option Error × Vm δ
  | 0, vm => (none, vm)
  | n + 1, vm =>
    match (vm.cycle display keys).1.outcome with
    | .failed e => (some e, (vm.cycle display keys).2)
    | _ => straight display keys n (vm.cycle display keys).2

/-- None of the next `n` instructions looks at the delay timer or at the keys. -/
def Unsensing (display : Display δ) (keys : KeySet) : Nat → Vm δ → Prop
  | 0, _ => True
  | n + 1, vm => vm.Blind ∧ ((∀ e, (vm.cycle display keys).1.outcome ≠ .failed e) →
      Unsensing display keys n (vm.cycle display keys).2)

variable {display : Display δ} {keys : KeySet} {vm : Vm δ}

/-! ## Cycles in a row -/

/-- A cycle that fails is the last of the row. -/
theorem straight_of_failed {e : Error} (n : Nat)
    (h : (vm.cycle display keys).1.outcome = .failed e) :
    vm.straight display keys (n + 1) = (some e, (vm.cycle display keys).2) := by
  rw [straight, h]

/-- After any other the row goes on. -/
theorem straight_of_not_failed (n : Nat)
    (h : ∀ e, (vm.cycle display keys).1.outcome ≠ .failed e) :
    vm.straight display keys (n + 1) = (vm.cycle display keys).2.straight display keys n := by
  rw [straight]
  split
  · rename_i e he
    exact absurd he (h e)
  · rfl

/-- A row of cycles none of which fails can be gone on with. -/
theorem straight_add {n : Nat} (h : (vm.straight display keys n).1 = none) (more : Nat) :
    vm.straight display keys (n + more) =
      (vm.straight display keys n).2.straight display keys more := by
  induction n generalizing vm with
  | zero => rw [Nat.zero_add]; rfl
  | succ n ih =>
    by_cases hfail : ∃ e, (vm.cycle display keys).1.outcome = .failed e
    · obtain ⟨e, he⟩ := hfail
      rw [straight_of_failed n he] at h
      cases h
    · have hgo := not_exists.1 hfail
      rw [straight_of_not_failed n hgo] at h
      rw [Nat.succ_add, straight_of_not_failed _ hgo, straight_of_not_failed n hgo, ih h]

/-- The first instructions of a row do not look at the timers or the keys if none does. -/
theorem Unsensing.take {n more : Nat} (h : vm.Unsensing display keys (n + more)) :
    vm.Unsensing display keys n := by
  induction n generalizing vm with
  | zero => trivial
  | succ n ih =>
    rw [Nat.succ_add] at h
    exact ⟨h.1, fun hgo => ih (h.2 hgo)⟩

/-- Nor do the later ones. -/
theorem Unsensing.drop {n more : Nat} (h : vm.Unsensing display keys (n + more))
    (hgo : (vm.straight display keys n).1 = none) :
    (vm.straight display keys n).2.Unsensing display keys more := by
  induction n generalizing vm with
  | zero => rwa [Nat.zero_add] at h
  | succ n ih =>
    by_cases hfail : ∃ e, (vm.cycle display keys).1.outcome = .failed e
    · obtain ⟨e, he⟩ := hfail
      rw [straight_of_failed n he] at hgo
      cases hgo
    · have hnext := not_exists.1 hfail
      rw [straight_of_not_failed n hnext] at hgo ⊢
      rw [Nat.succ_add] at h
      exact ih (h.2 hnext) hgo

end Vm

/-- How a run with a limit ends if an error, or none, comes first. -/
def Ending.ofError? (limit : Nat) : Option Error → Ending
  | none => .limitReached limit
  | some e => .cycleFailed e

namespace Run

variable {δ σ : Type}

/-- In the first `budget` rounds of the run no halt is requested and no poll fails. -/
def Undisturbed (display : Display δ) (host : Host σ) (limit : Option Nat) (budget : Nat)
    (r : Run δ σ) : Prop :=
  ∀ n < budget, ∀ s, rounds display host limit n r = (none, s) →
    host.halted s.world = false ∧ (host.poll s.world).1 = .ok ()

/-- What the run has left to execute leads straight to an end, but for the timers. -/
def Along (display : Display δ) (keys : KeySet) (limit : Nat) (goal : Option Error × Vm δ)
    (r : Run δ σ) : Prop :=
  ∃ (left : Nat) (vm : Vm δ), vm.SameButTimers r.vm ∧ vm.Unsensing display keys left ∧
    r.executed + left = limit ∧ vm.straight display keys left = goal

/-- A run has ended there, but for the timers. -/
structure Arrives (limit : Nat) (goal : Option Error × Vm δ) (ending : Ending) (r : Run δ σ) :
    Prop where
  ending : ending = .ofError? limit goal.1
  vm : goal.2.SameButTimers r.vm

/-- A run is on its way to an end, or has ended there. -/
def Fares (display : Display δ) (keys : KeySet) (limit : Nat) (goal : Option Error × Vm δ) :
    Option Ending × Run δ σ → Prop
  | (none, r) => Along display keys limit goal r
  | (some ending, r) => Arrives limit goal ending r

variable {display : Display δ} {host : Host σ} {keys : KeySet} {limit : Nat}
  {goal : Option Error × Vm δ} {r s : Run δ σ}

/-! ## On the way -/

/-- Whatever happens to the rest of a run, only its count and its state matter, and of the state
not the timers. -/
theorem Along.of_same (h : Along display keys limit goal r) (hcount : s.executed = r.executed)
    (hvm : r.vm.SameButTimers s.vm) : Along display keys limit goal s := by
  obtain ⟨left, vm, hsame, hblind, hleft, hgoal⟩ := h
  exact ⟨left, vm, hsame.trans hvm, hblind, by rw [hcount, hleft], hgoal⟩

/-- A run that the limit allows nothing more has arrived. -/
theorem Along.arrives (h : Along display keys limit goal r)
    (hfull : atLimit (some limit) r.executed = true) :
    Arrives limit goal (.limitReached r.executed) r := by
  obtain ⟨_, ⟨⟩, hle⟩ := atLimit_eq_true_iff.1 hfull
  obtain ⟨left, vm, hsame, -, hleft, rfl⟩ := h
  obtain rfl : left = 0 := by omega
  exact ⟨by rw [← hleft]; rfl, hsame⟩

/-- **A cycle of a run is the first of the cycles left.** -/
theorem along_cycle (host : Host σ) (h : Along display keys limit goal r)
    (hfree : atLimit (some limit) r.executed = false) :
    ((r.cycle display host).1.executes = true ∧
      Along display keys limit goal (r.cycle display host).2.countOne) ∨
    ∃ e, (r.cycle display host).1 = .failed e ∧
      Arrives limit goal (.cycleFailed e) (r.cycle display host).2 := by
  have hlt : r.executed < limit := atLimit_eq_false_iff.1 hfree limit rfl
  obtain ⟨left, vm, hsame, hblind, hleft, rfl⟩ := h
  obtain ⟨left, rfl⟩ : ∃ n, left = n + 1 := ⟨left - 1, by omega⟩
  obtain ⟨hreport, hafter⟩ :=
    Vm.cycle_sameButTimers hsame hblind.1 display keys (host.keys r.world)
  have hout : (vm.cycle display keys).1.outcome = (r.cycle display host).1 :=
    congrArg Report.outcome hreport
  rcases cycle_cases display host r with hexec | hwait | ⟨e, hfail⟩
  · have hgo : ∀ e, (vm.cycle display keys).1.outcome ≠ .failed e := by
      intro e he
      rw [← hout, he] at hexec
      cases hexec
    refine .inl ⟨hexec, left, _, hafter, hblind.2 hgo, ?_, (Vm.straight_of_not_failed left hgo).symm⟩
    rw [← hleft]
    exact Nat.add_right_comm r.executed 1 left
  · exact absurd (hout.trans hwait) (hblind.1.not_waiting display keys)
  · rw [hfail] at hout
    refine .inr ⟨e, hfail, ?_⟩
    rw [Vm.straight_of_failed left hout]
    exact ⟨rfl, hafter⟩

/-- **A batch** keeps a run on its way, or the run arrives in it. -/
theorem fares_batch (n : Nat) (h : Along display keys limit goal r) :
    Fares display keys limit goal (batch display host (some limit) n r) := by
  -- what is left shrinks with the run's own cycles, not with the size of its batches
  induction n generalizing r with
  | zero => exact h
  | succ n ih =>
    cases hfree : atLimit (some limit) r.executed with
    | true =>
      rw [batch_of_atLimit n hfree]
      exact h.arrives hfree
    | false =>
      rcases along_cycle host h hfree with ⟨hexec, hnext⟩ | ⟨e, hfail, harrives⟩
      · rw [batch_of_executes n hfree hexec]
        exact ih hnext
      · rw [batch_of_fails n hfree hfail]
        exact harrives

/-- **A round** does so, if it is not halted and its poll does not fail. -/
theorem fares_round (h : Along display keys limit goal r) (hgo : host.halted r.world = false)
    (hpoll : (host.poll r.world).1 = .ok ()) :
    Fares display keys limit goal (round display host (some limit) r) := by
  have hpolled : host.poll r.world = (.ok (), (host.poll r.world).2) := by rw [← hpoll]
  rw [round_of_polled hgo hpolled]
  generalize (host.poll r.world).2 = world
  -- between the poll and the batch only the timers and the pacer change
  let polled : Run δ σ := { r with world }
  have hticked : Along display keys limit goal
      ((polled.advance host).ticks (polled.due host).ticks) :=
    h.of_same rfl (r.vm.sameButTimers_ticks _)
  have hbatch : Fares display keys limit goal (batchNow display host (some limit) polled) :=
    fares_batch _ hticked
  cases hresult : batchNow display host (some limit) polled with
  | mk ending s =>
    rw [hresult] at hbatch
    cases ending with
    | none =>
      rw [work_of_none hresult]
      exact Along.of_same hbatch rfl (.refl _)
    | some ending =>
      rw [work_of_ending hresult]
      exact hbatch

/-- **Several rounds** do so, if none of them is disturbed. -/
theorem fares_rounds (n : Nat) (h : Along display keys limit goal r)
    (hcalm : Undisturbed display host (some limit) n r) :
    Fares display keys limit goal (rounds display host (some limit) n r) := by
  induction n generalizing r with
  | zero => exact h
  | succ n ih =>
    obtain ⟨hgo, hpoll⟩ := hcalm 0 (Nat.succ_pos n) r rfl
    have hround := fares_round h hgo hpoll
    rw [rounds]
    cases hresult : round display host (some limit) r with
    | mk ending s =>
      rw [hresult] at hround
      cases ending with
      | some ending => exact hround
      | none =>
        apply ih hround
        intro k hk t ht
        apply hcalm (k + 1) (Nat.succ_lt_succ hk) t
        rw [rounds, hresult]
        exact ht

end Run

namespace Vm

variable {δ : Type} {display : Display δ} {keys : KeySet} {limit : Nat} {vm vm' vm₀ : Vm δ}
  {ending : Ending}

/-! ## Whole runs -/

/-- An undisturbed run with a limit comes to an end, with some pacer in some world. -/
inductive RunsTo (display : Display δ) (limit : Nat) (vm : Vm δ) : Ending → Vm δ → Prop where
  | intro {σ : Type} {host : Host σ} {budget : Nat} {pacer : Pacer} {world : σ} {ending : Ending}
      {r : Run δ σ}
      (calm : Run.Undisturbed display host (some limit) budget (.start host pacer vm world))
      (returns : run display host (some limit) budget pacer vm world = (some ending, r)) :
      RunsTo display limit vm ending r.vm

/-- **A run comes to the end of the cycles in a row**, also if it starts with other timers. -/
theorem RunsTo.straight (h : vm₀.RunsTo display limit ending vm') (hsame : vm.SameButTimers vm₀)
    (hblind : vm.Unsensing display keys limit) :
    ending = .ofError? limit (vm.straight display keys limit).1 ∧
      (vm.straight display keys limit).2.SameButTimers vm' := by
  cases h with
  | @intro σ host budget pacer world ending r calm returns =>
    have halong : Run.Along display keys limit (vm.straight display keys limit)
        (.start host pacer vm₀ world) := ⟨limit, vm, hsame, hblind, Nat.zero_add limit, rfl⟩
    have hfares := Run.fares_rounds budget halong calm
    have harrives : Run.Arrives limit (vm.straight display keys limit) ending r := by
      have hrun : Run.rounds display host (some limit) budget (.start host pacer vm₀ world) =
          (some ending, r) := returns
      rw [hrun] at hfares
      exact hfares
    exact ⟨harrives.ending, harrives.vm⟩

/-- The ending of a row tells its error. -/
theorem error?_ofError? (limit : Nat) (error : Option Error) :
    (Ending.ofError? limit error).error? = error := by
  cases error <;> rfl

/-! ## Batches and cycles in a row -/

/-- **Batching is invisible.** None of the next instructions of a program, as many as the limit
allows, looks at the delay timer or at the keys. Then every undisturbed run with that limit that
comes to an end, at whatever rate and however time passes, ends as calling for cycles in a row does,
and with the same state but for the timers. The state includes the display's, so the display has
been called for the same, and it may refuse as its own state tells. And a run with a first limit that
executes so many, followed by a run with a second limit, comes to what one run with both limits
together comes to. -/
theorem batching_invisible (hblind : vm.Unsensing display keys limit) :
    (∀ ending after, vm.RunsTo display limit ending after →
      ending = .ofError? limit (vm.straight display keys limit).1 ∧
        (vm.straight display keys limit).2.SameButTimers after) ∧
    ∀ first second, first + second = limit → ∀ regular mid ending after ending' after',
      vm.RunsTo display first regular mid → regular.error? = none →
      mid.RunsTo display second ending after →
      vm.RunsTo display limit ending' after' →
        ending.error? = ending'.error? ∧ after.SameButTimers after' := by
  refine ⟨fun _ _ h => h.straight (.refl vm) hblind, ?_⟩
  rintro first second rfl regular mid ending after ending' after' hfirst hregular hsecond hboth
  obtain ⟨rfl, hmid⟩ := hfirst.straight (.refl vm) hblind.take
  rw [error?_ofError?] at hregular
  obtain ⟨rfl, hafter⟩ := hsecond.straight hmid (hblind.drop hregular)
  obtain ⟨rfl, hafter'⟩ := hboth.straight (.refl vm) hblind
  rw [straight_add hregular second] at hafter' ⊢
  rw [error?_ofError?, error?_ofError?]
  exact ⟨rfl, hafter.symm.trans hafter'⟩

/-! ## A program that counts, at two rates -/

/-- A world in which nothing is typed, and in which time passes in sleep only. -/
def calmHost : Host Nat where
  halted _ := false
  poll now := (.ok (), now)
  clock now := now
  keys _ := .empty
  observe _ now := now
  sleep time now := now + time

/-- The run of a machine in the calm world, with a limit and at most twelve rounds. -/
def calmRun (limit : Nat) (pacer : Pacer) (vm : Vm Recorder) : Option Ending × Run Recorder Nat :=
  run (Recorder.display []) calmHost (some limit) 12 pacer vm 0

/-- Nothing disturbs such a run. -/
theorem runsTo_calmRun {pacer : Pacer} {vm : Vm Recorder}
    (h : (calmRun limit pacer vm).1 = some ending) :
    vm.RunsTo (Recorder.display []) limit ending (calmRun limit pacer vm).2.vm :=
  .intro (fun _ _ _ _ => ⟨rfl, rfl⟩) (Prod.ext h rfl)

/-- A state is blind where the word that is found encodes an instruction which looks at no timer and
no key. -/
theorem blind_of_finds {word : UInt16} {ins : Instruction} (h : vm.machine.Finds word)
    (hdecode : Instruction.decode word = .ok ins) (hins : ins.senses = false) : vm.Blind := by
  intro ins' hfetch
  rw [h.fetch, hdecode] at hfetch
  cases hfetch
  exact hins

/-- None of the next instructions looks at the timers or the keys if none does that a row of cycles
comes to. -/
theorem unsensing_of_straight {n : Nat} (h : ∀ k < n, (vm.straight display keys k).2.Blind) :
    vm.Unsensing display keys n := by
  induction n generalizing vm with
  | zero => trivial
  | succ n ih =>
    refine ⟨h 0 (Nat.succ_pos n), fun hgo => ih fun k hk => ?_⟩
    have hnext := h (k + 1) (Nat.succ_lt_succ hk)
    rwa [straight_of_not_failed k hgo] at hnext

/-- Memory with two instructions: V0 goes up by one, and again from the start. -/
def countingMemory : Memory :=
  ⟨overwrite Memory.fresh.bytes Memory.programStart [0x70, 0x01, 0x12, 0x00]⟩

/-- A machine with that program, the timers going. -/
def counting : Vm Recorder where
  machine := { Machine.boot countingMemory 0 with timers := { delay := 9, sound := 1 } }
  screen := {}

/-- The first four instructions of the program look at no timer and no key. -/
theorem unsensing_counting : counting.Unsensing (Recorder.display []) .empty 4 := by
  have hfinds : ∀ k < 4, (counting.straight (Recorder.display []) .empty k).2.machine.Finds
      (if k % 2 = 0 then 0x7001 else 0x1200) := by
    decide +kernel
  refine unsensing_of_straight fun k hk => ?_
  have hword := hfinds k hk
  split at hword
  · have hcounts : Instruction.decode 0x7001 = .ok (.addByte 0 1) := rfl
    exact blind_of_finds hword hcounts rfl
  · have hrepeats : Instruction.decode 0x1200 = .ok (.jump 0x200) := rfl
    exact blind_of_finds hword hrepeats rfl

/-- Four instructions of the program are executed at 100 a second, and then again one at 100 and
three more at 40 a second. That takes several rounds, after three of which the first run is still
going on, and the timers tick in between: three times in that run, seven times in the other two. V0
is two in the end, either way. -/
theorem batching_invisible_counting :
    Memory.ofProgram ⟨[[0x70, 0x01, 0x12, 0x00]], none⟩ = .ok (4, countingMemory) ∧
      ∃ swift slow, Pacer.ofRate 100 = .ok swift ∧ Pacer.ofRate 40 = .ok slow ∧
        let whole := (calmRun 4 swift counting).2.vm
        let begun := (calmRun 1 swift counting).2.vm
        let ended := (calmRun 3 slow begun).2.vm
        counting.RunsTo (Recorder.display []) 4 (.limitReached 4) whole ∧
        counting.RunsTo (Recorder.display []) 1 (.limitReached 1) begun ∧
        begun.RunsTo (Recorder.display []) 3 (.limitReached 3) ended ∧
        (run (Recorder.display []) calmHost (some 4) 3 swift counting 0).1 = none ∧
        (counting.straight (Recorder.display []) .empty 4).2.SameButTimers whole ∧
        ended.SameButTimers whole ∧ whole.machine.v .first = 2 ∧
        whole.machine.timers.delay = 6 ∧ ended.machine.timers.delay = 2 := by
  have hread : (⟨[[0x70, 0x01, 0x12, 0x00]], none⟩ : Reader).readAll =
      .ok [0x70, 0x01, 0x12, 0x00] := rfl
  have hswift : Pacer.ofRate 100 = .ok { cyclePeriod := second / 100 } :=
    Pacer.ofRate_eq_ok (by decide) (by decide)
  have hslow : Pacer.ofRate 40 = .ok { cyclePeriod := second / 40 } :=
    Pacer.ofRate_eq_ok (by decide) (by decide)
  refine ⟨Memory.load_eq_ok Memory.fresh hread (by decide), _, _, hswift, hslow, ?_⟩
  intro whole begun ended
  -- one evaluation of the three runs for everything that is read off them
  have hruns : (calmRun 4 { cyclePeriod := second / 100 } counting).1 = some (.limitReached 4) ∧
      (calmRun 1 { cyclePeriod := second / 100 } counting).1 = some (.limitReached 1) ∧
      (calmRun 3 { cyclePeriod := second / 40 } begun).1 = some (.limitReached 3) ∧
      (run (Recorder.display []) calmHost (some 4) 3 { cyclePeriod := second / 100 }
        counting 0).1 = none ∧
      whole.machine.v .first = 2 ∧ whole.machine.timers.delay = 6 ∧
      ended.machine.timers.delay = 2 := by
    decide +kernel
  obtain ⟨hwhole, hbegun, hended, hgoing, hcount, hticks, hmore⟩ := hruns
  have hrun₁ := runsTo_calmRun hwhole
  have hrun₂ := runsTo_calmRun hbegun
  have hrun₃ := runsTo_calmRun hended
  obtain ⟨hstraight, hsplit⟩ := batching_invisible unsensing_counting
  have hsame := hsplit 1 3 rfl _ begun _ ended _ whole hrun₂ rfl hrun₃ hrun₁
  exact ⟨hrun₁, hrun₂, hrun₃, hgoing, (hstraight _ _ hrun₁).2, hsame.2, hcount, hticks, hmore⟩

end Vm

end Chip8
