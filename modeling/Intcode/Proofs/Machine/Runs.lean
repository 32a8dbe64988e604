import Intcode.Proofs.Machine.Frame
import Intcode.Proofs.Machine.Invariant

/-!
# Runs that end

`Machine.proceed` and `Machine.run`, the models of the loop of `Machine::run` and of all of it, are
given fuel, and with too little of it they say nothing. This file is about what they say with
enough:

* `Stops count after stop`: the machine executes `count` instructions, and the step after them
  stops it.
* `Resumes after ending`: stepped from where it is until it has halted or faults, the machine ends
  like this.
* `Runs after ending`: the same for a run from the start.

Results:
* `proceed_add`: steps can be taken in two goes.
* `proceed_eq_some_iff`, `resumes_iff`: a run that ends has executed a number of instructions and
  then stops.
* `Resumes.unique`: it ends in one way only.
* **`resumes_iff_of_proceed`**: a machine that has executed some of its instructions ends as it
  would have from where it began.
* `Runs.of_stops`, `Runs.exists_stops_halted`, `Runs.exists_stops_faulted`: the same for runs from
  the start, by the way they end.
* `Runs.map`: a change to a machine that its steps do not notice, its run does not notice.
* `steps_of_proceed`, `queue_of_proceed`: what any number of instructions leave behind.
-/

namespace Intcode

namespace Machine

/-- Steps until the machine stops, and tells the result, as `run` does after its reset. -/
def resume (fuel : Nat) (machine : Machine) : Machine × Ending (Option Word) :=
  match machine.proceed fuel with
  | (after, some stop) => (after, stop.ending after.state.last)
  | (after, none) => (after, .unfinished)

/-- The machine executes `count` instructions, and the step after them stops it. -/
def Stops (machine : Machine) (count : Nat) (after : Machine) (stop : Stop) : Prop :=
  ∃ last, machine.proceed count = (last, none) ∧ last.step = (after, .stopped stop)

/-- Stepped from where it is until it has halted or faults, the machine ends like this. -/
def Resumes (machine after : Machine) (ending : Ending (Option Word)) : Prop :=
  ending ≠ .unfinished ∧ ∃ fuel, machine.resume fuel = (after, ending)

/-- Run from the start, the machine ends like this. -/
def Runs (machine after : Machine) (ending : Ending (Option Word)) : Prop :=
  ending ≠ .unfinished ∧ ∃ fuel, machine.run fuel = (after, ending)

variable {machine after mid : Machine} {count fuel : Nat} {stop : Stop}
  {ending : Ending (Option Word)}

theorem run_eq_resume (fuel : Nat) (machine : Machine) :
    machine.run fuel = machine.reset.resume fuel := by
  unfold run resume
  rcases machine.reset.proceed fuel with ⟨after, _ | stop⟩
  · rfl
  · cases stop <;> rfl

theorem runs_iff_resumes : machine.Runs after ending ↔ machine.reset.Resumes after ending := by
  simp only [Runs, Resumes, run_eq_resume]

/-! ## Taking steps in two goes -/

/-- **Steps can be taken in two goes**, the second one if the first did not stop the machine. -/
theorem proceed_add (count fuel : Nat) (machine : Machine) :
    machine.proceed (count + fuel) =
      match machine.proceed count with
      | (mid, none) => mid.proceed fuel
      | (mid, some stop) => (mid, some stop) := by
  induction count generalizing machine with
  | zero => rw [Nat.zero_add, proceed]
  | succ count ih =>
    rw [Nat.succ_add, proceed, proceed]
    rcases machine.step with ⟨next, instruction | stop⟩
    · exact ih next
    · rfl

theorem proceed_add_of_executed (h : machine.proceed count = (mid, none)) (fuel : Nat) :
    machine.proceed (count + fuel) = mid.proceed fuel := by
  rw [proceed_add, h]

/-- More fuel changes nothing about a machine that has stopped. -/
theorem proceed_add_of_stopped (h : machine.proceed count = (after, some stop)) (fuel : Nat) :
    machine.proceed (count + fuel) = (after, some stop) := by
  rw [proceed_add, h]

theorem proceed_one (machine : Machine) :
    machine.proceed 1 =
      match machine.step with
      | (after, .executed _) => (after, none)
      | (after, .stopped stop) => (after, some stop) := rfl

/-- Many instructions are one less and then one more. -/
theorem proceed_succ_eq_none_iff :
    machine.proceed (count + 1) = (after, none) ↔
      ∃ before instruction, machine.proceed count = (before, none) ∧
        before.step = (after, .executed instruction) := by
  constructor
  · intro h
    rw [proceed_add] at h
    rcases hcount : machine.proceed count with ⟨before, _ | stop⟩
    · rw [hcount] at h
      simp only [proceed_one] at h
      rcases hstep : before.step with ⟨next, instruction | stop⟩
      · rw [hstep] at h
        cases h
        exact ⟨before, instruction, rfl, hstep⟩
      · rw [hstep] at h
        cases h
    · rw [hcount] at h
      cases h
  · rintro ⟨before, instruction, hcount, hstep⟩
    exact proceed_snoc hcount hstep

/-- **A machine stopped within its fuel has executed fewer instructions than that**, and its next
step stops it. -/
theorem proceed_eq_some_iff :
    machine.proceed fuel = (after, some stop) ↔ ∃ count < fuel, machine.Stops count after stop := by
  constructor
  · intro h
    induction fuel generalizing machine with
    | zero => cases h
    | succ fuel ih =>
      rw [proceed] at h
      rcases hstep : machine.step with ⟨next, instruction | other⟩
      · rw [hstep] at h
        obtain ⟨count, hlt, last, hlast, hstops⟩ := ih h
        refine ⟨count + 1, Nat.succ_lt_succ hlt, last, ?_, hstops⟩
        rw [proceed, hstep]
        exact hlast
      · rw [hstep] at h
        cases h
        exact ⟨0, Nat.succ_pos fuel, machine, rfl, hstep⟩
  · rintro ⟨count, hlt, last, hlast, hstops⟩
    obtain ⟨extra, rfl⟩ := Nat.exists_eq_add_of_le hlt
    refine proceed_add_of_stopped ?_ extra
    rw [Nat.succ_eq_add_one, proceed_add_of_executed hlast, proceed_one, hstops]

/-! ## The end of a run -/

/-- A machine that has halted or faulted within its fuel has stopped. -/
theorem exists_proceed_of_resume (h : machine.resume fuel = (after, ending))
    (hended : ending ≠ .unfinished) :
    ∃ stop, machine.proceed fuel = (after, some stop) ∧ stop.ending after.state.last = ending := by
  unfold resume at h
  rcases hproceed : machine.proceed fuel with ⟨final, _ | stop⟩
  · rw [hproceed] at h
    cases h
    exact absurd rfl hended
  · rw [hproceed] at h
    cases h
    exact ⟨stop, rfl, rfl⟩

theorem resumes_iff :
    machine.Resumes after ending ↔ ending ≠ .unfinished ∧
      ∃ count stop, machine.Stops count after stop ∧ stop.ending after.state.last = ending := by
  refine and_congr_right fun hended => ⟨?_, ?_⟩
  · rintro ⟨fuel, hfuel⟩
    obtain ⟨stop, hproceed, hending⟩ := exists_proceed_of_resume hfuel hended
    obtain ⟨count, -, hstops⟩ := proceed_eq_some_iff.mp hproceed
    exact ⟨count, stop, hstops, hending⟩
  · rintro ⟨count, stop, hstops, rfl⟩
    refine ⟨count + 1, ?_⟩
    unfold resume
    rw [proceed_eq_some_iff.mpr ⟨count, Nat.lt_succ_self count, hstops⟩]

/-- A run that has ended ends the same way with more fuel. -/
theorem resume_add (h : machine.resume fuel = (after, ending)) (hended : ending ≠ .unfinished)
    (extra : Nat) : machine.resume (fuel + extra) = (after, ending) := by
  obtain ⟨stop, hproceed, rfl⟩ := exists_proceed_of_resume h hended
  rw [resume, proceed_add_of_stopped hproceed]

/-- **A run ends in one way only.** -/
theorem Resumes.unique {other : Machine} {otherwise : Ending (Option Word)}
    (h : machine.Resumes after ending) (h' : machine.Resumes other otherwise) :
    after = other ∧ ending = otherwise := by
  obtain ⟨hended, fuel, hfuel⟩ := h
  obtain ⟨hended', fuel', hfuel'⟩ := h'
  have hboth := resume_add hfuel hended fuel'
  rw [Nat.add_comm, resume_add hfuel' hended' fuel] at hboth
  exact ⟨(congrArg Prod.fst hboth).symm, (congrArg Prod.snd hboth).symm⟩

/-- **A machine that has executed some of its instructions ends as it would have from where it
began**, and one ends exactly if the other does. -/
theorem resumes_iff_of_proceed (h : machine.proceed count = (mid, none)) :
    mid.Resumes after ending ↔ machine.Resumes after ending := by
  have heq : ∀ fuel, machine.resume (count + fuel) = mid.resume fuel := by
    intro fuel
    unfold resume
    rw [proceed_add_of_executed h]
  constructor
  · rintro ⟨hended, fuel, hfuel⟩
    exact ⟨hended, count + fuel, (heq fuel).trans hfuel⟩
  · rintro ⟨hended, fuel, hfuel⟩
    refine ⟨hended, fuel, ?_⟩
    rw [← heq, Nat.add_comm]
    exact resume_add hfuel hended count

theorem Runs.unique {other : Machine} {otherwise : Ending (Option Word)}
    (h : machine.Runs after ending) (h' : machine.Runs other otherwise) :
    after = other ∧ ending = otherwise :=
  (runs_iff_resumes.mp h).unique (runs_iff_resumes.mp h')

/-- A run reaches its end by executing instructions and then stopping. -/
theorem Runs.of_stops (h : machine.reset.Stops count after stop)
    (hended : stop.ending after.state.last ≠ .unfinished) :
    machine.Runs after (stop.ending after.state.last) :=
  runs_iff_resumes.mpr (resumes_iff.mpr ⟨hended, count, stop, h, rfl⟩)

theorem Runs.exists_stops_faulted {fault : Fault} (h : machine.Runs after (.faulted fault)) :
    ∃ count, machine.reset.Stops count after (.faulted fault) := by
  obtain ⟨-, count, stop, hstops, hending⟩ := resumes_iff.mp (runs_iff_resumes.mp h)
  cases stop with
  | halted | waiting => cases hending
  | faulted fault =>
    cases hending
    exact ⟨count, hstops⟩

theorem Runs.exists_stops_halted {result : Option Word}
    (h : machine.Runs after (.finished result)) :
    ∃ count, machine.reset.Stops count after .halted ∧ after.state.last = result := by
  obtain ⟨-, count, stop, hstops, hending⟩ := resumes_iff.mp (runs_iff_resumes.mp h)
  cases stop with
  | faulted | waiting => cases hending
  | halted =>
    cases hending
    exact ⟨count, hstops, rfl⟩

/-- **A change that leads to the same step, whenever that executes an instruction or ends the run as
given, leads to the same run.** -/
theorem Runs.map {f : Machine → Machine} (h : machine.Runs after ending)
    (hreset : (f machine).reset = f machine.reset)
    (hlast : (f after).state.last = after.state.last)
    (hstep : ∀ {before next : Machine} {outcome : Outcome}, before.step = (next, outcome) →
      (∀ stop, outcome = .stopped stop → stop.ending next.state.last = ending) →
        (f before).step = (f next, outcome)) :
    (f machine).Runs (f after) ending := by
  obtain ⟨hended, count, stop, ⟨last, hproceed, hstop⟩, rfl⟩ :=
    resumes_iff.mp (runs_iff_resumes.mp h)
  have hexecuted : (f machine.reset).proceed count = (f last, none) :=
    proceed_map (fun hbefore => hstep hbefore fun stop heq => by cases heq) hproceed
  have hstopped : (f last).step = (f after, .stopped stop) :=
    hstep hstop fun other heq => by cases heq; rfl
  have hstops : (f machine).reset.Stops count (f after) stop := by
    rw [hreset]
    exact ⟨f last, hexecuted, hstopped⟩
  have hruns := Runs.of_stops hstops (by rwa [hlast])
  rwa [hlast] at hruns

/-! ## What instructions leave behind -/

/-- Every executed instruction is counted. -/
theorem steps_of_proceed (h : machine.proceed count = (after, none)) :
    after.state.steps = machine.state.steps + count := by
  induction count generalizing after with
  | zero =>
    cases h
    rfl
  | succ count ih =>
    obtain ⟨before, instruction, hbefore, hstep⟩ := proceed_succ_eq_none_iff.mp h
    rw [steps_of_executed hstep, ih hbefore, Nat.add_assoc]

/-- The step that stops a machine is not counted. -/
theorem Stops.steps_eq (h : machine.Stops count after stop) :
    after.state.steps = machine.state.steps + count := by
  obtain ⟨last, hlast, hstops⟩ := h
  rw [state_of_stopped hstops, steps_of_proceed hlast]

/-- The counter of a run tells how many instructions it has executed. -/
theorem steps_of_proceed_reset (h : machine.reset.proceed count = (after, none)) :
    after.state.steps = count :=
  (steps_of_proceed h).trans (Nat.zero_add count)

theorem Stops.steps_eq_of_reset (h : machine.reset.Stops count after stop) :
    after.state.steps = count :=
  h.steps_eq.trans (Nat.zero_add count)

/-- A machine keeps its program and its limit. -/
theorem kept_of_proceed (fuel : Nat) (machine : Machine) :
    (machine.proceed fuel).1.program = machine.program ∧
      (machine.proceed fuel).1.limit = machine.limit := by
  refine proceed_induction
    (P := fun other => other.program = machine.program ∧ other.limit = machine.limit)
    (fun other h => ?_) fuel ⟨rfl, rfl⟩
  exact ⟨(program_of_step rfl).trans h.1, (limit_of_step rfl).trans h.2⟩

/-- A queue stays a queue, and loses values at its front only. -/
theorem queue_of_proceed {queue : List Word} (hqueue : machine.input = .queue queue) (fuel : Nat) :
    ∃ taken rest, queue = taken ++ rest ∧ (machine.proceed fuel).1.input = .queue rest := by
  refine proceed_induction (P := fun other =>
    ∃ taken rest, queue = taken ++ rest ∧ other.input = .queue rest) (fun other h => ?_) fuel
    ⟨[], queue, rfl, hqueue⟩
  obtain ⟨taken, rest, rfl, hrest⟩ := h
  obtain ⟨more, left, rfl, hleft⟩ := queue_of_step hrest rfl
  exact ⟨taken ++ more, left, (List.append_assoc ..).symm, hleft⟩

/-- A machine on a queue stops with a queue. -/
theorem Stops.queue {queue : List Word} (h : machine.Stops count after stop)
    (hqueue : machine.input = .queue queue) :
    ∃ taken left, queue = taken ++ left ∧ after.input = .queue left := by
  have hproceed := proceed_eq_some_iff.mpr ⟨count, Nat.lt_succ_self count, h⟩
  have hleft := queue_of_proceed hqueue (count + 1)
  rwa [hproceed] at hleft

/-- A machine on a queue, at an outlet that answers, does not stop to wait. -/
theorem Stops.ne_waiting {queue : List Word} (h : machine.Stops count after stop)
    (hqueue : machine.input = .queue queue)
    (houtlet : Session.Responsive Outlet.push machine.output) : stop ≠ .waiting := by
  obtain ⟨last, hlast, hstop⟩ := h
  obtain ⟨-, rest, -, hrest⟩ := queue_of_proceed hqueue count
  have hanswers := proceed_induction
    (P := fun other => Session.Responsive Outlet.push other.output)
    (fun _ hother => responsive_of_step hother rfl) count houtlet
  rw [hlast] at hrest hanswers
  exact ne_waiting_of_queue hrest hanswers hstop

end Machine

end Intcode
