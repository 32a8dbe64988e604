import Intcode.Proofs.Machine.Runs

/-!
# Limited and unlimited runs

A machine with a limit (`with_step_limit`) does what it would do without, until the limit is used
up. It can use it up to the last instruction: a program that halts with its last allowed instruction
has halted, since the halt is noticed before the limit is. But a fault that is due right then does
not come to pass, because the limit is looked at before the instruction is.

Results:
* `step_withLimit`, `proceed_withLimit`: the limit does not matter while it is not used up.
* `run_withLimit_ne_unfinished`: a limited run ends, if its pushes return.
* `limit_cases`: the three things that can happen to an unlimited run up to some point.
* `resumes_withLimit`: a run cut short by its limit goes on under a higher one.
* **`limited_run_agrees`**: all that for every limit and every program on a queue.
-/

namespace Intcode.Machine

/-- The machine with this limit. -/
def withLimit (machine : Machine) (limit : Nat) : Machine := { machine with limit := some limit }

variable {machine after free cut : Machine} {limit count : Nat} {outcome : Outcome}

/-! ## While the limit lasts -/

/-- A machine without a limit never uses it up. -/
theorem exhausted?_of_proceed (hfree : machine.limit = none)
    (h : machine.proceed count = (after, none)) : after.exhausted? = none := by
  have hkept := (machine.kept_of_proceed count).2
  rw [h, hfree] at hkept
  rw [exhausted?, hkept]
  rfl

theorem exhausted?_withLimit (machine : Machine) (limit : Nat) :
    (machine.withLimit limit).exhausted? =
      if limit ≤ machine.state.steps then some limit else none := by
  by_cases h : limit ≤ machine.state.steps <;> simp [exhausted?, withLimit, h]

/-- **A limit that is not used up does not matter to a step.** -/
theorem step_withLimit (h : machine.step = (after, outcome))
    (hfree : machine.exhausted? = none) (hlt : machine.state.steps < limit) :
    (machine.withLimit limit).step = (after.withLimit limit, outcome) := by
  have hlimit : (machine.withLimit limit).exhausted? = none := by
    rw [exhausted?_withLimit, if_neg (Nat.not_le.mpr hlt)]
  rw [step_eq_iff] at h ⊢
  cases h with
  | halted hhalted => exact .halted hhalted
  | exhausted _ hused => exact absurd (hfree.symm.trans hused) (by simp)
  | crash hrun _ hnext => exact .crash hrun hlimit hnext
  | internal hrun _ hnext => exact .internal hrun hlimit hnext
  | receive hrun _ hnext hpull hdest => exact .receive hrun hlimit hnext hpull hdest
  | misplace hrun _ hnext hpull hdest => exact .misplace hrun hlimit hnext hpull hdest
  | starve hrun _ hnext hpull => exact .starve hrun hlimit hnext hpull
  | wait hrun _ hnext hpull => exact .wait hrun hlimit hnext hpull
  | send hrun _ hnext hpush => exact .send hrun hlimit hnext hpush
  | refuse hrun _ hnext hpush => exact .refuse hrun hlimit hnext hpush
  | block hrun _ hnext hpush => exact .block hrun hlimit hnext hpush

/-- **A limit of at least as many instructions as are executed does not matter to them.** -/
theorem proceed_withLimit (hfree : machine.limit = none)
    (h : machine.proceed count = (after, none)) (hle : machine.state.steps + count ≤ limit) :
    (machine.withLimit limit).proceed count = (after.withLimit limit, none) := by
  induction count generalizing after with
  | zero =>
    cases h
    rfl
  | succ count ih =>
    obtain ⟨before, instruction, hbefore, hstep⟩ := proceed_succ_eq_none_iff.mp h
    have hnone := exhausted?_of_proceed hfree hbefore
    have hsteps := steps_of_proceed hbefore
    exact proceed_snoc (ih hbefore (by omega)) (step_withLimit hstep hnone (by omega))

/-- A machine that has not halted and has used up its limit faults. -/
theorem step_withLimit_of_le (hrun : machine.state.halted = false)
    (hle : limit ≤ machine.state.steps) :
    (machine.withLimit limit).step =
      (machine.withLimit limit, .stopped (.faulted (.stepLimit limit))) := by
  refine Steps.step_eq (.exhausted hrun ?_)
  rw [exhausted?_withLimit, if_pos hle]

/-! ## Limited runs -/

theorem proceed_reset_withLimit (hfree : free.limit = none)
    (h : free.reset.proceed count = (after, none)) (hle : count ≤ limit) :
    (free.withLimit limit).reset.proceed count = (after.withLimit limit, none) := by
  have hreset : free.reset.limit = none := hfree
  refine proceed_withLimit hreset h ?_
  show 0 + count ≤ limit
  rwa [Nat.zero_add]

/-- An unlimited run that halts within the limit halts under the limit. -/
theorem Runs.withLimit_of_finished {result : Option Word} (hfree : free.limit = none)
    (h : free.Runs after (.finished result)) (hle : after.state.steps ≤ limit) :
    (free.withLimit limit).Runs (after.withLimit limit) (.finished result) := by
  obtain ⟨count, hstops, rfl⟩ := h.exists_stops_halted
  rw [hstops.steps_eq_of_reset] at hle
  obtain ⟨last, hlast, hstop⟩ := hstops
  obtain ⟨rfl, hhalted⟩ := eq_of_halted hstop
  -- the step that notices the halt does not look at the limit
  have hnoticed : (after.withLimit limit).step = (after.withLimit limit, .stopped .halted) :=
    Steps.step_eq (.halted hhalted)
  exact Runs.of_stops ⟨_, proceed_reset_withLimit hfree hlast hle, hnoticed⟩ (by simp [Stop.ending])

/-- An unlimited run that faults before the limit faults under the limit. -/
theorem Runs.withLimit_of_faulted {fault : Fault} (hfree : free.limit = none)
    (h : free.Runs after (.faulted fault)) (hlt : after.state.steps < limit) :
    (free.withLimit limit).Runs (after.withLimit limit) (.faulted fault) := by
  obtain ⟨count, hstops⟩ := h.exists_stops_faulted
  have hcount := hstops.steps_eq_of_reset
  obtain ⟨last, hlast, hstop⟩ := hstops
  have hproceed : (free.withLimit limit).reset.proceed count = (last.withLimit limit, none) :=
    proceed_reset_withLimit hfree hlast (by omega)
  have hnone := exhausted?_of_proceed (show free.reset.limit = none from hfree) hlast
  rw [state_of_stopped hstop] at hlt
  exact Runs.of_stops ⟨_, hproceed, step_withLimit hstop hnone hlt⟩ (by simp [Stop.ending])

/-- A run that has not halted when its limit is used up is cut short there. -/
theorem runs_withLimit_of_cut (hfree : free.limit = none)
    (hcut : free.reset.proceed limit = (cut, none)) (hrun : cut.state.halted = false) :
    (free.withLimit limit).Runs (cut.withLimit limit) (.faulted (.stepLimit limit)) := by
  have hstop := step_withLimit_of_le hrun (Nat.le_of_eq (steps_of_proceed_reset hcut).symm)
  exact Runs.of_stops ⟨_, proceed_reset_withLimit hfree hcut (Nat.le_refl limit), hstop⟩
    (by simp [Stop.ending])

/-- **A run cut short by its limit goes on under a higher one** as if it had been so from the
start. -/
theorem resumes_withLimit {higher : Nat} {ending : Ending (Option Word)} (hfree : free.limit = none)
    (hcut : free.reset.proceed limit = (cut, none)) (hle : limit ≤ higher) :
    ((cut.withLimit limit).withLimit higher).Resumes after ending ↔
      (free.withLimit higher).Runs after ending := by
  have hproceed : (free.withLimit higher).reset.proceed limit = (cut.withLimit higher, none) :=
    proceed_reset_withLimit hfree hcut hle
  rw [runs_iff_resumes]
  exact resumes_iff_of_proceed hproceed

/-- **A limited run on a queue ends**, at an outlet that answers, since it cannot execute more
instructions than its limit allows and neither of the two makes it wait. -/
theorem run_withLimit_ne_unfinished {queue : List Word} (hqueue : machine.input = .queue queue)
    (houtlet : Session.Responsive Outlet.push machine.output) (limit : Nat) :
    ((machine.withLimit limit).run (limit + 1)).2 ≠ .unfinished := by
  have hwithin : (machine.withLimit limit).reset.Within limit := ⟨rfl, Nat.zero_le limit⟩
  have hafter := proceed_induction (fun _ h => Within.step h) (limit + 1) hwithin
  rw [run_eq_resume]
  unfold resume
  rcases hproceed : (machine.withLimit limit).reset.proceed (limit + 1) with ⟨after, _ | stop⟩
  · have hsteps := steps_of_proceed_reset hproceed
    have hle : after.state.steps ≤ limit := by
      rw [hproceed] at hafter
      exact hafter.steps_le
    omega
  · obtain ⟨count, -, hstops⟩ := proceed_eq_some_iff.mp hproceed
    cases stop with
    | halted | faulted => simp [Stop.ending]
    | waiting => exact absurd rfl (hstops.ne_waiting hqueue houtlet)

/-- Up to any point an unlimited run on a queue has halted, or has faulted before, or goes on. -/
theorem limit_cases (free : Machine) {queue : List Word} (hqueue : free.input = .queue queue)
    (houtlet : Session.Responsive Outlet.push free.output) (limit : Nat) :
    (∃ after result, free.Runs after (.finished result) ∧ after.state.steps ≤ limit) ∨
      (∃ after fault, free.Runs after (.faulted fault) ∧ after.state.steps < limit) ∨
      ∃ cut, free.reset.proceed limit = (cut, none) ∧ cut.state.halted = false := by
  rcases hproceed : free.reset.proceed limit with ⟨after, _ | stop⟩
  · have hsteps := steps_of_proceed_reset hproceed
    cases hhalted : after.state.halted with
    | false => exact .inr (.inr ⟨after, rfl, hhalted⟩)
    | true =>
      have hruns := Runs.of_stops ⟨after, hproceed, (Steps.halted hhalted).step_eq⟩
        (by simp [Stop.ending])
      exact .inl ⟨after, _, hruns, by omega⟩
  · obtain ⟨count, hlt, hstops⟩ := proceed_eq_some_iff.mp hproceed
    have hsteps := hstops.steps_eq_of_reset
    cases stop with
    | halted =>
      exact .inl ⟨after, _, Runs.of_stops hstops (by simp [Stop.ending]), by omega⟩
    | faulted fault =>
      exact .inr (.inl ⟨after, fault, Runs.of_stops hstops (by simp [Stop.ending]), by omega⟩)
    | waiting => exact absurd rfl (hstops.ne_waiting hqueue houtlet)

/-- **Limited and unlimited runs agree.** Take any program on any queue and at any outlet that
answers, whatever state the machine is in before its run. Under a limit the run ends. It ends like
the unlimited run if that halts having executed no more instructions than the limit, or faults
having executed fewer; in every other case the limit is its fault, and it leaves the machine where
the unlimited one is after as many instructions as the limit allows. From there, under a limit that
is no lower, stepping ends exactly as a run under that limit does. -/
theorem limited_run_agrees (program : Program) (queue : List Word) (output : Outlet)
    (houtput : Session.Responsive Outlet.push output) (state : State) (limit : Nat) :
    let free : Machine := { program, input := .queue queue, output, state }
    ((free.withLimit limit).run (limit + 1)).2 ≠ .unfinished ∧
      (∀ after result, free.Runs after (.finished result) → after.state.steps ≤ limit →
        (free.withLimit limit).Runs (after.withLimit limit) (.finished result)) ∧
      (∀ after fault, free.Runs after (.faulted fault) → after.state.steps < limit →
        (free.withLimit limit).Runs (after.withLimit limit) (.faulted fault)) ∧
      ((∀ after result, free.Runs after (.finished result) → limit < after.state.steps) →
        (∀ after fault, free.Runs after (.faulted fault) → limit ≤ after.state.steps) →
        ∃ cut, free.reset.proceed limit = (cut, none) ∧ cut.state.steps = limit ∧
          (free.withLimit limit).Runs (cut.withLimit limit) (.faulted (.stepLimit limit)) ∧
          ∀ higher, limit ≤ higher → ∀ after ending,
            ((cut.withLimit limit).withLimit higher).Resumes after ending ↔
              (free.withLimit higher).Runs after ending) := by
  intro free
  refine ⟨run_withLimit_ne_unfinished rfl houtput limit,
    fun after result h hle => h.withLimit_of_finished rfl hle,
    fun after fault h hlt => h.withLimit_of_faulted rfl hlt, fun hhalts hfaults => ?_⟩
  rcases limit_cases free rfl houtput limit with
    ⟨after, result, h, hle⟩ | ⟨after, fault, h, hlt⟩ | ⟨cut, hcut, hrun⟩
  · exact absurd (hhalts after result h) (Nat.not_lt.mpr hle)
  · exact absurd (hfaults after fault h) (Nat.not_le.mpr hlt)
  · refine ⟨cut, hcut, ?_, runs_withLimit_of_cut rfl hcut hrun, fun higher hle after ending =>
      resumes_withLimit rfl hcut hle⟩
    exact steps_of_proceed_reset hcut

/-- A machine whose program outputs a value, and then halts or comes upon a word that is no
instruction. -/
def outputThen (word : Word) : Machine where
  program := ⟨[104, 7, word]⟩
  input := .queue []

/-- A limit of two instructions is enough for the output and the halt. For the output and the fault
it takes two as well, although the fault is not an instruction: under a limit of one the limit is
the fault, and with another step allowed the first fault is back. -/
theorem limited_run_agrees_outputThen :
    (∃ after, ((outputThen 99).withLimit 2).Runs after (.finished (some 7))) ∧
      ∃ after cut, (outputThen 50).Runs after (.faulted (.unknownOpcode 2 50 50)) ∧
        ((outputThen 50).withLimit 2).Runs (after.withLimit 2)
          (.faulted (.unknownOpcode 2 50 50)) ∧
        ((outputThen 50).withLimit 1).Runs cut (.faulted (.stepLimit 1)) ∧
        (cut.withLimit 2).Resumes (after.withLimit 2) (.faulted (.unknownOpcode 2 50 50)) := by
  have hhalts : (outputThen 99).Runs ((outputThen 99).run 3).1 (.finished (some 7)) :=
    ⟨nofun, 3, rfl⟩
  have hfaults : (outputThen 50).Runs ((outputThen 50).run 2).1
      (.faulted (.unknownOpcode 2 50 50)) := ⟨nofun, 2, rfl⟩
  have hagrees (word : Word) := limited_run_agrees (outputThen word).program [] .discard
    (Outlet.responsive_of_ne fun _ _ => nofun) (outputThen word).state
  obtain ⟨-, hfinished, -⟩ := hagrees 99 2
  obtain ⟨-, -, hfaulted, -⟩ := hagrees 50 2
  obtain ⟨-, -, -, hother⟩ := hagrees 50 1
  have hcut := hother (fun after result h => absurd (h.unique hfaults).2 nofun)
    (fun after fault h => by rw [(h.unique hfaults).1]; decide)
  obtain ⟨cut, -, -, hruns, hraised⟩ := hcut
  have hsame := hfaulted _ _ hfaults (by decide)
  exact ⟨⟨_, hfinished _ _ hhalts (by decide)⟩, _, cut.withLimit 1, hfaults, hsame, hruns,
    (hraised 2 (by decide) _ _).mpr hsame⟩

end Intcode.Machine
