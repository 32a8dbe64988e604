import Intcode.Machine.Session
import Intcode.Proofs.Machine.Runs

/-!
# Sessions

What a machine does with a port depends on nothing but the answers that it gets from `Output::push`.
Here are the steps of a session by these answers, and what follows for whole runs.

Results:
* `Machine.step_of_offer`, `Machine.step_of_silent`: the outlet matters to a step that offers a
  value, and to no other.
* `Session.Steps`, `Session.steps_of_step`: everything a step of a session can be.
* `Session.attached_step`, `Session.attached_run`: with an outlet for its port a session is the
  machine at that outlet.
* `Session.Faithful.step`, `Session.faithful_run`: what a run has output is what the port has
  accepted.
* `Session.step_discarding`, `Session.proceed_discarding`: as long as the port accepts, the machine
  might as well discard.
* `Session.ne_waiting`: on a queue, a session waits for its port only.
-/

namespace Intcode

namespace Machine

variable {machine after : Machine} {value : Word} {outcome : Outcome}

theorem offer?_eq_some_iff :
    machine.offer? = some value ↔ machine.state.halted = false ∧ machine.exhausted? = none ∧
      ∃ instruction, machine.state.next = .ok (instruction, .send value) := by
  unfold offer?
  by_cases hidle : machine.state.halted ∨ machine.exhausted?.isSome
  · rw [if_pos hidle]
    constructor
    · intro h
      cases h
    · rintro ⟨hrun, hlimit, -⟩
      rw [hrun, hlimit] at hidle
      exact absurd hidle (by simp)
  · rw [if_neg hidle]
    simp only [not_or, Bool.not_eq_true, Option.isSome_eq_false_iff, Option.isNone_iff_eq_none]
      at hidle
    constructor
    · intro h
      split at h
      · cases h
        exact ⟨hidle.1, hidle.2, _, by assumption⟩
      · cases h
    · rintro ⟨-, -, instruction, hnext⟩
      rw [hnext]

/-- A step that offers a value depends on the answer. -/
theorem step_of_offer (h : machine.offer? = some value) :
    ∃ instruction, ∀ output, ({ machine with output } : Machine).step =
      match output.push value with
      | .accepted after =>
        ({ machine with output := after, state := machine.state.sent value }, .executed instruction)
      | .refused after =>
        ({ machine with output := after }, .stopped (.faulted (.outputClosed machine.state.ip)))
      | .blocked => ({ machine with output }, .stopped .waiting) := by
  obtain ⟨hrun, hlimit, instruction, hnext⟩ := offer?_eq_some_iff.mp h
  refine ⟨instruction, fun output => ?_⟩
  cases hpush : output.push value with
  | accepted after => exact Steps.step_eq (.send hrun hlimit hnext hpush)
  | refused after =>
    obtain rfl := Outlet.after_of_refused hpush
    exact Steps.step_eq (.refuse hrun hlimit hnext hpush)
  | blocked => exact Steps.step_eq (.block hrun hlimit hnext hpush)

/-- **A step that offers nothing is the same at every outlet.** -/
theorem step_of_silent (h : machine.offer? = none) (output : Outlet) :
    ({ machine with output } : Machine).step =
      ({ machine.step.1 with output }, machine.step.2) := by
  rcases hstep : machine.step with ⟨after, outcome⟩
  rw [step_eq_iff] at hstep ⊢
  cases hstep with
  | halted hhalted => exact .halted hhalted
  | exhausted hrun hlimit => exact .exhausted hrun hlimit
  | crash hrun hlimit hnext => exact .crash hrun hlimit hnext
  | internal hrun hlimit hnext => exact .internal hrun hlimit hnext
  | receive hrun hlimit hnext hpull hdest => exact .receive hrun hlimit hnext hpull hdest
  | misplace hrun hlimit hnext hpull hdest => exact .misplace hrun hlimit hnext hpull hdest
  | starve hrun hlimit hnext hpull => exact .starve hrun hlimit hnext hpull
  | wait hrun hlimit hnext hpull => exact .wait hrun hlimit hnext hpull
  | send hrun hlimit hnext | refuse hrun hlimit hnext | block hrun hlimit hnext =>
    rw [offer?_eq_some_iff.mpr ⟨hrun, hlimit, _, hnext⟩] at h
    cases h

/-- A step that offers nothing outputs nothing. -/
theorem outputs_of_silent (h : machine.offer? = none) :
    machine.step.1.state.outputs = machine.state.outputs := by
  rcases hstep : machine.step with ⟨after, outcome⟩
  cases step_eq_iff.mp hstep with
  | halted | exhausted | crash | internal | receive | misplace | starve | wait | refuse
  | block => rfl
  | send hrun hlimit hnext =>
    rw [offer?_eq_some_iff.mpr ⟨hrun, hlimit, _, hnext⟩] at h
    cases h

end Machine

namespace Session

variable {σ : Type} {push : σ → Word → Push σ} {session after : Session σ} {outcome : Outcome}
  {instruction : Instruction} {stop : Stop} {answers : Push σ → Prop}

/-! ## Steps -/

/-- The machine of a session, with no regard to its port. -/
def discarding (session : Session σ) : Machine := { session.machine with output := .discard }

/-- **Everything a step of a session can be.** -/
inductive Steps (push : σ → Word → Push σ) (session : Session σ) : Session σ → Outcome → Prop where
  /-- The machine offers nothing. -/
  | silent (hoffer : session.machine.offer? = none) :
      Steps push session { session with machine := session.machine.step.1 } session.machine.step.2
  /-- The port accepts a value. -/
  | accept {value : Word} {port : σ} {instruction : Instruction}
      (hoffer : session.machine.offer? = some value)
      (hpush : push session.port value = .accepted port)
      (hstep : session.discarding.step =
        ({ session.discarding with state := session.machine.state.sent value },
          .executed instruction)) :
      Steps push session
        { machine := { session.discarding with state := session.machine.state.sent value }
          port
          accepted := session.accepted ++ [value] }
        (.executed instruction)
  /-- The port refuses a value. -/
  | refuse {value : Word} {port : σ} (hoffer : session.machine.offer? = some value)
      (hpush : push session.port value = .refused port) :
      Steps push session
        { session with machine := { session.machine with output := .channel #[] false }, port }
        (.stopped (.faulted (.outputClosed session.machine.state.ip)))
  /-- The port does not return. -/
  | block {value : Word} (hoffer : session.machine.offer? = some value)
      (hpush : push session.port value = .blocked) :
      Steps push session session (.stopped .waiting)

/-- A step is one of the cases. -/
theorem steps_of_step (h : session.step push = (after, outcome)) :
    session.Steps push after outcome := by
  unfold step at h
  cases hoffer : session.machine.offer? with
  | none =>
    simp only [hoffer] at h
    cases h
    exact .silent hoffer
  | some value =>
    obtain ⟨instruction, hstep⟩ := Machine.step_of_offer hoffer
    simp only [hoffer] at h
    cases hpush : push session.port value with
    | accepted port =>
      simp only [hpush, hstep .discard, Outlet.push] at h
      cases h
      exact .accept hoffer hpush (hstep .discard)
    | refused port =>
      simp only [hpush, hstep (.channel #[] false), Outlet.push] at h
      cases h
      exact .refuse hoffer hpush
    | blocked =>
      simp only [hpush] at h
      cases h
      exact .block hoffer hpush

/-! ## Outlets as ports -/

/-- The machine has output what the port has accepted. -/
def Faithful (session : Session σ) : Prop :=
  session.machine.state.outputs.toList = session.accepted

/-- **A step outputs a value exactly if the port accepts it.** -/
theorem Faithful.step (push : σ → Word → Push σ) (h : session.Faithful) :
    (session.step push).1.Faithful := by
  rcases hstep : session.step push with ⟨after, outcome⟩
  cases steps_of_step hstep with
  | silent hoffer => exact (congrArg Array.toList (Machine.outputs_of_silent hoffer)).trans h
  | accept =>
    simp only [Faithful] at h
    simp [Faithful, State.sent, h]
  | refuse | block => exact h

theorem Faithful.proceed (push : σ → Word → Push σ) (h : session.Faithful) (fuel : Nat) :
    (session.proceed push fuel).1.Faithful := by
  induction fuel generalizing session with
  | zero => exact h
  | succ fuel ih =>
    have hnext := h.step push
    rw [Session.proceed]
    rcases hstep : session.step push with ⟨after, instruction | stop⟩
    · rw [hstep] at hnext
      exact ih hnext
    · rw [hstep] at hnext
      exact hnext

/-- **As long as the port accepts, the machine might as well discard.** -/
theorem step_discarding (h : session.step push = (after, .executed instruction)) :
    session.discarding.step = (after.discarding, .executed instruction) := by
  generalize houtcome : Outcome.executed instruction = outcome at h ⊢
  cases steps_of_step h with
  | silent hoffer => exact Machine.step_of_silent hoffer .discard
  | accept _ _ hstep => exact hstep
  | refuse | block => cases houtcome

/-- What a port always does it still does after a step that executes an instruction. -/
theorem Always.of_executed (hport : Always push answers session.port)
    (h : session.step push = (after, .executed instruction)) : Always push answers after.port := by
  generalize houtcome : Outcome.executed instruction = outcome at h
  cases steps_of_step h with
  | silent => exact hport
  | accept _ hpush => exact hport.of_accepted hpush
  | refuse | block => cases houtcome

/-- A step that stops leaves the state as it was. -/
theorem state_of_stopped (h : session.step push = (after, .stopped stop)) :
    after.machine.state = session.machine.state := by
  generalize houtcome : Outcome.stopped stop = outcome at h
  cases steps_of_step h with
  | silent => exact Machine.state_of_stopped (Prod.ext rfl houtcome.symm)
  | accept => cases houtcome
  | refuse | block => rfl

/-- **On a queue, a session waits for its port only.** -/
theorem ne_waiting {queue : List Word} (hqueue : session.machine.input = .queue queue)
    (hport : ∀ value, session.machine.offer? = some value → push session.port value ≠ .blocked)
    (h : session.step push = (after, .stopped stop)) : stop ≠ .waiting := by
  generalize houtcome : Outcome.stopped stop = outcome at h
  cases steps_of_step h with
  | silent hoffer =>
    have hstep : session.discarding.step = (_, .stopped stop) :=
      (Machine.step_of_silent hoffer .discard).trans (Prod.ext rfl houtcome.symm)
    have hkept : session.discarding.input = .queue queue := hqueue
    exact Machine.ne_waiting_of_queue hkept (Outlet.responsive_of_ne fun _ _ => nofun) hstep
  | accept => cases houtcome
  | refuse =>
    cases houtcome
    nofun
  | block hoffer hpush => exact absurd hpush (hport _ hoffer)

/-! ## Runs -/

/-- Many instructions are one less and then one more. -/
theorem exists_last_of_proceed {count : Nat}
    (h : session.proceed push (count + 1) = (after, none)) :
    ∃ before instruction, session.proceed push count = (before, none) ∧
      before.step push = (after, .executed instruction) := by
  induction count generalizing session with
  | zero =>
    rw [proceed] at h
    rcases hstep : session.step push with ⟨next, instruction | stop⟩
    · rw [hstep] at h
      cases h
      exact ⟨session, instruction, rfl, hstep⟩
    · rw [hstep] at h
      cases h
  | succ count ih =>
    rw [proceed] at h
    rcases hstep : session.step push with ⟨next, instruction | stop⟩
    · rw [hstep] at h
      obtain ⟨before, last, hbefore, hlast⟩ := ih h
      refine ⟨before, last, ?_, hlast⟩
      rw [proceed, hstep]
      exact hbefore
    · rw [hstep] at h
      cases h

/-- A session that has stopped has executed some instructions before. -/
theorem exists_last_of_stopped {fuel : Nat} (h : session.proceed push fuel = (after, some stop)) :
    ∃ count before, count < fuel ∧ session.proceed push count = (before, none) ∧
      before.step push = (after, .stopped stop) := by
  induction fuel generalizing session with
  | zero => cases h
  | succ fuel ih =>
    rw [proceed] at h
    rcases hstep : session.step push with ⟨next, instruction | other⟩
    · rw [hstep] at h
      obtain ⟨count, before, hlt, hbefore, hlast⟩ := ih h
      refine ⟨count + 1, before, Nat.succ_lt_succ hlt, ?_, hlast⟩
      rw [proceed, hstep]
      exact hbefore
    · rw [hstep] at h
      cases h
      exact ⟨0, session, Nat.succ_pos fuel, rfl, hstep⟩

/-- **As long as the port accepts, the run is that of a machine that discards.** -/
theorem proceed_discarding {count : Nat} (h : session.proceed push count = (after, none)) :
    session.discarding.proceed count = (after.discarding, none) := by
  induction count generalizing after with
  | zero =>
    cases h
    rfl
  | succ count ih =>
    obtain ⟨before, instruction, hbefore, hstep⟩ := exists_last_of_proceed h
    exact Machine.proceed_snoc (ih hbefore) (step_discarding hstep)

theorem Always.of_proceed {count : Nat} (hport : Always push answers session.port)
    (h : session.proceed push count = (after, none)) : Always push answers after.port := by
  induction count generalizing after with
  | zero =>
    cases h
    exact hport
  | succ count ih =>
    obtain ⟨before, instruction, hbefore, hstep⟩ := exists_last_of_proceed h
    exact (ih hbefore).of_executed hstep

/-- A port that answers makes no run wait. -/
theorem Responsive.unblocked (hport : Responsive push session.port) : Unblocked push session :=
  fun _ _ value hbefore _ => (hport.of_proceed hbefore).answer value

/-- A port with room for a number of values, which refuses what comes after them. -/
def pushWithin (room : Nat) (_ : Word) : Push Nat :=
  if 0 < room then .accepted (room - 1) else .refused room

theorem responsive_pushWithin (room : Nat) : Responsive pushWithin room := by
  refine Always.of_invariant (P := fun _ => True) trivial (fun _ _ => ?_) fun _ _ => trivial
  unfold pushWithin
  split <;> nofun

end Session

end Intcode
