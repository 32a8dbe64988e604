import Intcode.Machine.Log
import Intcode.Proofs.Machine.Runs

/-!
# What is shown of a run

What is logged about a run that ends is settled when it has ended. `Machine::run` warns of the fault
that ends it, and everything else that it and `step` log is less important. So a logger that shows
warnings at most shows one record of a run that faults and nothing of any other.

Results:
* `runLog_unique`: more fuel does not add to the log of a run that has ended.
* `shown_attemptRecords`, `shown_successRecords`: a quiet logger shows nothing of an instruction.
* `proceedLog_of_quiet`: what it shows of any number of steps, by induction on them.
* **`runLog_of_quiet`**: what it shows of a run.
-/

namespace Intcode.Machine

/-- The warning that is logged when the run of a machine has ended, if it faulted. -/
def warnings (after : Machine) : Ending (Option Word) → List Record
  | .faulted fault => [after.state.faultRecord fault]
  | .finished _ | .unfinished => []

variable {logger : Logger} {machine after : Machine}

/-! ## Enough fuel -/

theorem proceedLog_add {fuel : Nat} {stop : Stop} (h : machine.proceed fuel = (after, some stop))
    (extra : Nat) (before : Array Record) :
    machine.proceedLog logger (fuel + extra) before = machine.proceedLog logger fuel before := by
  induction fuel generalizing machine before with
  | zero => cases h
  | succ fuel ih =>
    rw [Nat.succ_add, proceedLog, proceedLog]
    rw [proceed] at h
    rcases hstep : machine.step with ⟨next, instruction | reason⟩
    · rw [hstep] at h
      exact ih h _
    · rfl

/-- **The log of a run that ends does not depend on the fuel**, if there is enough. -/
theorem runLog_unique {fuel more : Nat} {last : Machine} {ending otherwise : Ending (Option Word)}
    (h : machine.run fuel = (after, ending)) (hended : ending ≠ .unfinished)
    (h' : machine.run more = (last, otherwise)) (hended' : otherwise ≠ .unfinished)
    (before : Array Record) :
    machine.runLog logger fuel before = machine.runLog logger more before := by
  rw [run_eq_resume] at h h'
  obtain ⟨stop, hproceed, -⟩ := exists_proceed_of_resume h hended
  obtain ⟨reason, hproceed', -⟩ := exists_proceed_of_resume h' hended'
  rcases Nat.le_total fuel more with hle | hle
  · obtain ⟨extra, rfl⟩ := Nat.exists_eq_add_of_le hle
    exact (proceedLog_add hproceed extra _).symm
  · obtain ⟨extra, rfl⟩ := Nat.exists_eq_add_of_le hle
    exact proceedLog_add hproceed' extra _

/-! ## Quiet loggers -/

theorem shown_attemptRecords (hquiet : logger.Quiet) (machine : Machine) :
    logger.shown machine.attemptRecords = [] := by
  unfold attemptRecords State.attemptRecords
  split
  · rfl
  · split
    · exact hquiet.shown_singleton_eq_nil nofun
    · rfl

theorem shown_successRecords (hquiet : logger.Quiet) (state : State) :
    logger.shown state.successRecords = [] := by
  unfold State.successRecords
  split
  · exact hquiet.shown_singleton_eq_nil nofun
  all_goals rfl

theorem shown_stopRecords (hquiet : logger.Quiet) (after : Machine) (stop : Stop) :
    logger.shown (after.stopRecords stop) =
      logger.shown (warnings after (stop.ending after.state.last)) := by
  cases stop with
  | faulted | waiting => rfl
  | halted => exact hquiet.shown_singleton_eq_nil nofun

/-- Of any number of steps a quiet logger shows the warning that they end with, if they do. -/
theorem proceedLog_of_quiet (hquiet : logger.Quiet) (fuel : Nat) (machine : Machine)
    (before : Array Record) :
    machine.proceedLog logger fuel before =
      before ++ logger.shown (warnings (machine.resume fuel).1 (machine.resume fuel).2) := by
  induction fuel generalizing machine before with
  | zero => simp [proceedLog, resume, proceed, warnings, Logger.shown]
  | succ fuel ih =>
    rw [proceedLog, shown_attemptRecords hquiet, shown_successRecords hquiet]
    rcases hstep : machine.step with ⟨after, instruction | stop⟩
    · have hresume : machine.resume (fuel + 1) = after.resume fuel := by
        rw [resume, proceed, hstep]
        rfl
      simpa [hresume] using ih after before
    · have hresume : machine.resume (fuel + 1) = (after, stop.ending after.state.last) := by
        rw [resume, proceed, hstep]
      simp only [hresume, shown_stopRecords hquiet]
      simp

/-- **Of a run a quiet logger shows the warning of its fault, if it faults, and nothing else.** -/
theorem runLog_of_quiet (hquiet : logger.Quiet) {fuel : Nat} {ending : Ending (Option Word)}
    (hrun : machine.run fuel = (after, ending)) (before : Array Record) :
    machine.runLog logger fuel before = before ++ logger.shown (warnings after ending) := by
  have hstart : logger.shown [machine.program.startRecord] = [] :=
    hquiet.shown_singleton_eq_nil nofun
  rw [run_eq_resume] at hrun
  rw [runLog, hstart, proceedLog_of_quiet hquiet, hrun]
  simp

end Intcode.Machine
