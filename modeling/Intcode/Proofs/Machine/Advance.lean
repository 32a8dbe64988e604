import Intcode.Proofs.Machine.Session

/-!
# How far a run gets without jumping back

An executed instruction leads to the address behind it, unless it is a jump that is taken or the
halt. Nothing is executed that does not lie inside memory, and nothing changes the size of memory.
So a machine that does not jump back climbs from address to address and is out of memory after as
many instructions as there are cells. What the program writes into its own code does not matter to
this argument: it decides what is executed, but not that the pointer climbs.

That the machine does not go on is not enough for `Machine::run` to return: the push of an `out` has
to return as well, and the one of a `SyncSender` need not. So the main result is about sessions,
with a port of any kind, and asks for pushes that return.

Results:
* `ip_of_executed`: where an executed instruction leads.
* `halted_of_executed`: only the halt ends a run.
* `size_of_proceed`: memory keeps its size.
* `ip_lt_of_executed`, `Session.climbs_or_jumps_back`: the pointer climbs with every instruction
  that is not a jump back.
* `Session.exists_jump_back`: of more instructions than memory has cells, one is a jump back.
* **`Session.forward_run_ends`**: a run that never jumps back ends, having executed no more
  instructions than the program has words, if its pushes return.
* `unheard_run_never_ends`: a run whose only push does not return.
-/

namespace Intcode

namespace State

/-- The address that the instruction at the pointer jumps to, if it is a jump and is taken. -/
def jump? (state : State) : Option Nat :=
  match state.memory.decode state.ip with
  | .ok (.jump ifNonzero condition target) =>
    match state.read condition with
    | .ok value =>
      if decide (value ≠ 0) = ifNonzero then (state.target target).toOption else none
    | .error _ => none
  | _ => none

variable {state : State} {instruction : Instruction}

/-- Only a jump jumps. -/
theorem jump?_eq_none_of_decode (h : state.memory.decode state.ip = .ok instruction)
    (hother : ∀ ifNonzero, instruction.opcode ≠ .jump ifNonzero) : state.jump? = none := by
  unfold jump?
  rw [h]
  cases instruction with
  | jump ifNonzero condition target => exact absurd rfl (hother ifNonzero)
  | compute | input | output | halt => rfl

/-- An instruction that neither receives nor sends leads to where it jumps, or else behind itself,
unless it is the halt. -/
theorem Asks.ip_eq {effect : Effect} (h : state.Asks instruction (.internal effect))
    (hne : instruction ≠ .halt) :
    effect.ip = state.jump?.getD (state.behind instruction.opcode) := by
  cases h with
  | compute hdecode => rw [jump?_eq_none_of_decode hdecode nofun]; rfl
  | jump hdecode hread htaken htarget =>
    simp [jump?, hdecode, hread, htaken, htarget, Except.toOption]
  | skip hdecode hread htaken =>
    simp only [jump?, hdecode, hread, if_neg htaken]
    rfl
  | halt => exact absurd rfl hne

/-- Only the halt ends a run. -/
theorem Asks.halted_iff {effect : Effect} (h : state.Asks instruction (.internal effect)) :
    effect.halted = true ↔ instruction = .halt := by
  cases h <;> simp

end State

namespace Machine

variable {machine after : Machine} {outcome : Outcome} {instruction : Instruction} {count : Nat}

/-! ## One instruction -/

/-- What has halted executes nothing. -/
theorem running_of_executed (h : machine.step = (after, .executed instruction)) :
    machine.state.halted = false := by
  cases step_eq_iff.mp h <;> assumption

/-- What is executed is the instruction at the pointer. -/
theorem decode_of_executed (h : machine.step = (after, .executed instruction)) :
    machine.state.memory.decode machine.state.ip = .ok instruction := by
  have hnext := machine.state.yields_next
  cases step_eq_iff.mp h with
  | internal _ _ hasks | receive _ _ hasks | send _ _ hasks => exact (hnext.of_ok hasks).decode_eq

theorem ip_lt_size_of_executed (h : machine.step = (after, .executed instruction)) :
    machine.state.ip < machine.state.memory.size := by
  have hinside := (machine.state.memory.yields_decode machine.state.ip).of_ok (decode_of_executed h)
  have hpos := instruction.length_pos
  omega

/-- **Where an executed instruction leads**: to where it jumps, or else behind itself, unless it is
the halt. -/
theorem ip_of_executed (h : machine.step = (after, .executed instruction))
    (hne : instruction ≠ .halt) :
    after.state.ip = machine.state.jump?.getD (machine.state.behind instruction.opcode) := by
  have hnext := machine.state.yields_next
  cases step_eq_iff.mp h with
  | internal _ _ hasks => exact (hnext.of_ok hasks).ip_eq hne
  | receive _ _ hasks =>
    cases hnext.of_ok hasks with
    | input hdecode => rw [State.jump?_eq_none_of_decode hdecode nofun]; rfl
  | send _ _ hasks =>
    cases hnext.of_ok hasks with
    | output hdecode => rw [State.jump?_eq_none_of_decode hdecode nofun]; rfl

/-- **Only the halt ends a run.** -/
theorem halted_of_executed (h : machine.step = (after, .executed instruction)) :
    after.state.halted = true ↔ instruction = .halt := by
  have hnext := machine.state.yields_next
  cases step_eq_iff.mp h with
  | internal _ _ hasks => exact (hnext.of_ok hasks).halted_iff
  | receive hrun _ hasks =>
    cases hnext.of_ok hasks with
    | input => simp [State.received, hrun]
  | send hrun _ hasks =>
    cases hnext.of_ok hasks with
    | output => simp [State.sent, hrun]

/-- **The pointer climbs**, unless the instruction is a jump back or the halt. -/
theorem ip_lt_of_executed (h : machine.step = (after, .executed instruction))
    (hrun : after.state.halted = false)
    (hforward : ∀ target, machine.state.jump? = some target → machine.state.ip < target) :
    machine.state.ip < after.state.ip := by
  have hne : instruction ≠ .halt := by
    intro hhalt
    rw [(halted_of_executed h).mpr hhalt] at hrun
    cases hrun
  rw [ip_of_executed h hne]
  cases hjump : machine.state.jump? with
  | some target => exact hforward target hjump
  | none => exact Nat.lt_add_of_pos_right instruction.length_pos

/-- No step changes the size of memory. -/
theorem size_of_step (h : machine.step = (after, outcome)) :
    after.state.memory.size = machine.state.memory.size := by
  cases step_eq_iff.mp h with
  | halted | exhausted | crash | misplace | starve | wait | send | refuse | block => rfl
  | internal => exact Memory.size_write _ _
  | receive => exact Memory.size_set _ _ _

/-! ## Many instructions -/

/-- Memory keeps its size. -/
theorem size_of_proceed {stop : Option Stop} (h : machine.proceed count = (after, stop)) :
    after.state.memory.size = machine.state.memory.size := by
  have hkept := proceed_induction
    (P := fun other => other.state.memory.size = machine.state.memory.size)
    (fun _ hother => (size_of_step rfl).trans hother) count rfl
  rwa [h] at hkept

end Machine

namespace Session

variable {σ : Type} {push : σ → Word → Push σ} {session after : Session σ} {count : Nat}

/-- **The pointer climbs with every instruction, or there is a jump back among them**, as long as
the machine has not halted. -/
theorem climbs_or_jumps_back (h : session.proceed push count = (after, none))
    (hrun : after.machine.state.halted = false) :
    session.machine.state.ip + count ≤ after.machine.state.ip ∨
      ∃ (k : Nat) (before : Session σ) (target : Nat),
        session.proceed push k = (before, none) ∧ before.machine.state.jump? = some target ∧
          target ≤ before.machine.state.ip := by
  induction count generalizing after with
  | zero =>
    cases h
    exact .inl (Nat.le_refl _)
  | succ count ih =>
    obtain ⟨before, instruction, hbefore, hlast⟩ := exists_last_of_proceed h
    have hstep := step_discarding hlast
    have hrunning := Machine.running_of_executed hstep
    rcases ih hbefore hrunning with hle | hback
    · by_cases hback : ∃ target, before.machine.state.jump? = some target ∧
        target ≤ before.machine.state.ip
      · obtain ⟨target, hjump, htarget⟩ := hback
        exact .inr ⟨count, before, target, hbefore, hjump, htarget⟩
      · have hclimbs := Machine.ip_lt_of_executed hstep hrun fun target hjump =>
          Nat.lt_of_not_le fun htarget => hback ⟨target, hjump, htarget⟩
        have hlt : before.machine.state.ip < after.machine.state.ip := hclimbs
        exact .inl (by omega)
    · exact .inr hback

/-- **Of more instructions than memory has cells, one is a jump back.** -/
theorem exists_jump_back (h : session.proceed push count = (after, none))
    (hmany : session.machine.state.memory.size < count) :
    ∃ (k : Nat) (before : Session σ) (target : Nat),
      session.proceed push k = (before, none) ∧ before.machine.state.jump? = some target ∧
        target ≤ before.machine.state.ip := by
  obtain ⟨most, rfl⟩ := Nat.exists_eq_succ_of_ne_zero (Nat.ne_zero_of_lt hmany)
  obtain ⟨before, instruction, hbefore, hlast⟩ := exists_last_of_proceed h
  have hstep := step_discarding hlast
  have hrunning := Machine.running_of_executed hstep
  rcases climbs_or_jumps_back hbefore hrunning with hclimbs | hback
  · -- the last instruction would lie behind the end of memory
    have hinside := Machine.ip_lt_size_of_executed hstep
    have hsize := Machine.size_of_proceed (proceed_discarding hbefore)
    simp only [discarding] at hinside hsize
    omega
  · exact hback

/-! ## Main result -/

/-- **Only jumps back keep a run going, and ports that do not return.** Take any program on any
queue and at any port, without a limit, whatever state the machine is in before its run. If every
push of the run returns, be it with a refusal, and every jump that the run takes goes to a higher
address than its own, then the run halts or faults, and it has executed no more instructions than
the program has words, whatever it has made of itself meanwhile. -/
theorem forward_run_ends {σ : Type} (push : σ → Word → Push σ) (program : Program)
    (queue : List Word) (port : σ) (state : State) :
    let session : Session σ := { machine := { program, input := .queue queue, state }, port }
    session.reset.Unblocked push →
    (∀ (count : Nat) (before : Session σ) (target : Nat),
      session.reset.proceed push count = (before, none) →
      before.machine.state.jump? = some target → before.machine.state.ip < target) →
    ∃ after, ((∃ result, session.run push (program.size + 1) = (after, .finished result)) ∨
        ∃ fault, session.run push (program.size + 1) = (after, .faulted fault)) ∧
      after.machine.state.steps ≤ program.size := by
  intro session hreturns hforward
  have hsize : session.reset.machine.state.memory.size = program.size :=
    (State.sound_fresh program).size_eq
  unfold run
  rcases hproceed : session.reset.proceed push (program.size + 1) with ⟨after, _ | stop⟩
  · obtain ⟨count, before, target, hbefore, hjump, hback⟩ := exists_jump_back hproceed (by omega)
    exact absurd (hforward count before target hbefore hjump) (Nat.not_lt.mpr hback)
  · obtain ⟨count, before, hlt, hbefore, hstop⟩ := exists_last_of_stopped hproceed
    have hdiscarding := proceed_discarding hbefore
    have hsteps := Machine.steps_of_proceed_reset hdiscarding
    obtain ⟨-, rest, -, hrest⟩ := Machine.queue_of_proceed
      (show session.reset.discarding.input = .queue queue from rfl) count
    rw [hdiscarding] at hrest
    refine ⟨after, ?_, ?_⟩
    · cases stop with
      | halted => exact .inl ⟨_, rfl⟩
      | faulted fault => exact .inr ⟨fault, rfl⟩
      | waiting => exact absurd rfl (ne_waiting hrest (hreturns count before · hbefore) hstop)
    · simp only [discarding] at hsteps
      rw [state_of_stopped hstop, hsteps]
      exact Nat.lt_succ_iff.mp hlt

/-- A program that stores a value of the inlet into the jump that follows; if that is not zero, the
jump passes over a word that is no instruction. Behind it are two outputs. -/
def leaping : Program := ⟨[3, 3, 1105, 0, 6, 50, 104, 1, 104, 2, 99]⟩

/-- The machine jumps from address two to address six; of its two outputs the second is refused. -/
theorem forward_run_ends_leaping :
    let session : Session Nat :=
      { machine := { program := leaping, input := .queue [1] }, port := 1 }
    (session.reset.proceed pushWithin 1).1.machine.state.jump? = some 6 ∧
      ∃ after, ((∃ result, session.run pushWithin 12 = (after, .finished result)) ∨
        ∃ fault, session.run pushWithin 12 = (after, .faulted fault)) ∧
      after.machine.state.steps ≤ 11 := by
  intro session
  refine ⟨rfl, forward_run_ends pushWithin leaping [1] 1 session.machine.state
    (responsive_pushWithin 1).unblocked ?_⟩
  intro count before target hbefore hjump
  rcases count with _ | _ | _ | _ | extra
  · cases hbefore
    cases hjump
  · cases hbefore
    cases hjump
    decide
  · cases hbefore
    cases hjump
  · cases hbefore
    cases hjump
  · have hstopped : (session.reset.proceed pushWithin (extra + 4)).2 =
      some (.faulted (.outputClosed 8)) := rfl
    rw [hbefore] at hstopped
    cases hstopped

end Session

namespace Machine

/-- A machine that has one value for a channel without any room, where nobody takes it. -/
def unheard : Machine where
  program := ⟨[104, 1, 99]⟩
  input := .queue []
  output := .bounded 0 #[] true

/-- **A push that does not return keeps a run going, too.** The machine takes no jump, and however
long it runs, it neither halts nor faults. -/
theorem unheard_run_never_ends :
    (∀ count before, unheard.reset.proceed count = (before, none) → before.state.jump? = none) ∧
      ∀ after ending, ¬ unheard.Runs after ending := by
  have hwaits : ∀ fuel, unheard.reset.proceed (fuel + 1) = (unheard.reset, some .waiting) :=
    fun fuel => rfl
  constructor
  · intro count before hbefore
    cases count with
    | zero =>
      cases hbefore
      rfl
    | succ count =>
      rw [hwaits] at hbefore
      cases hbefore
  · rintro after ending ⟨hended, fuel, hrun⟩
    cases fuel with
    | zero =>
      cases hrun
      exact hended rfl
    | succ fuel =>
      rw [run, hwaits] at hrun
      cases hrun
      exact hended rfl

end Machine

end Intcode
