import Intcode.Proofs.Machine.Runs

/-!
# Traces

`Machine.trace` takes the steps that `Machine.proceed` takes and lists what they execute, as the
results of `Machine::step` tell it. This file takes a trace apart: at every line of it the machine
can be found that executes the line, and at its end the one that stops or goes on.

Results:
* `proceed_eq_trace`: a trace follows the run.
* `length_le_of_trace`: it has at most as many lines as steps were taken.
* `trace_add_of_executed`: a trace can be taken in two goes.
* **`trace_induction`**: what every executed instruction preserves, a trace preserves.
* `exists_of_getElem?_trace`: the machine that executes a line of a trace.
* `exists_last_of_trace`: the machine at the end of a trace.
-/

namespace Intcode.Machine

variable {machine after mid : Machine} {count : Nat} {executed : List (Nat × Instruction)}
  {stop : Option Stop} {instruction : Instruction}

/-! ## Step by step -/

theorem trace_succ_of_executed (h : machine.step = (mid, .executed instruction)) (count : Nat) :
    machine.trace (count + 1) = ((mid.trace count).1,
      (machine.state.ip, instruction) :: (mid.trace count).2.1, (mid.trace count).2.2) := by
  rw [trace, h]

theorem trace_succ_of_stopped {reason : Stop} (h : machine.step = (after, .stopped reason))
    (count : Nat) : machine.trace (count + 1) = (after, [], some reason) := by
  rw [trace, h]

/-- **A trace follows the run.** -/
theorem proceed_eq_trace (count : Nat) (machine : Machine) :
    machine.proceed count = ((machine.trace count).1, (machine.trace count).2.2) := by
  induction count generalizing machine with
  | zero => rfl
  | succ count ih =>
    rw [proceed]
    rcases hstep : machine.step with ⟨mid, instruction | reason⟩
    · rw [trace_succ_of_executed hstep]
      exact ih mid
    · rw [trace_succ_of_stopped hstep]

theorem proceed_of_trace (h : machine.trace count = (after, executed, stop)) :
    machine.proceed count = (after, stop) := by
  rw [proceed_eq_trace, h]

/-- A trace has at most as many lines as steps were taken. -/
theorem length_le_of_trace (h : machine.trace count = (after, executed, stop)) :
    executed.length ≤ count := by
  induction count generalizing machine executed with
  | zero =>
    cases h
    exact Nat.le_refl 0
  | succ count ih =>
    rcases hstep : machine.step with ⟨next, instruction | reason⟩
    · rw [trace_succ_of_executed hstep] at h
      cases h
      exact Nat.succ_le_succ (ih rfl)
    · rw [trace_succ_of_stopped hstep] at h
      cases h
      exact Nat.zero_le _

/-- **A trace can be taken in two goes**, the second one if the first did not stop the machine. -/
theorem trace_add_of_executed (h : machine.trace count = (mid, executed, none)) (more : Nat) :
    machine.trace (count + more) =
      ((mid.trace more).1, executed ++ (mid.trace more).2.1, (mid.trace more).2.2) := by
  induction count generalizing machine executed with
  | zero =>
    cases h
    rw [Nat.zero_add]
    rfl
  | succ count ih =>
    rw [Nat.succ_add]
    rcases hstep : machine.step with ⟨next, instruction | reason⟩
    · rw [trace_succ_of_executed hstep] at h ⊢
      rcases hrest : next.trace count with ⟨last, rest, ending⟩
      rw [hrest] at h
      cases h
      rw [ih hrest]
      rfl
    · rw [trace_succ_of_stopped hstep] at h
      cases h

/-! ## Line by line -/

/-- **The machine that executes a line of a trace**, with what it has executed before and where it
goes on. -/
theorem exists_of_getElem?_trace (h : machine.trace count = (after, executed, stop)) {i : Nat}
    {line : Nat × Instruction} (hline : executed[i]? = some line) :
    ∃ before next, machine.trace i = (before, executed.take i, none) ∧
      before.state.ip = line.1 ∧ before.step = (next, .executed line.2) := by
  induction count generalizing machine executed i with
  | zero =>
    cases h
    cases hline
  | succ count ih =>
    rcases hstep : machine.step with ⟨second, instruction | reason⟩
    · rw [trace_succ_of_executed hstep] at h
      cases h
      cases i with
      | zero =>
        cases hline
        exact ⟨machine, second, rfl, rfl, hstep⟩
      | succ i =>
        obtain ⟨before, next, hbefore, hip, hnext⟩ := ih rfl hline
        refine ⟨before, next, ?_, hip, hnext⟩
        rw [trace_succ_of_executed hstep, hbefore]
        rfl
    · rw [trace_succ_of_stopped hstep] at h
      cases h
      cases hline

/-- **The machine at the end of a trace**: it goes on from there, or its next step has stopped
it. -/
theorem exists_last_of_trace (h : machine.trace count = (after, executed, stop)) :
    ∃ last, machine.trace executed.length = (last, executed, none) ∧ after.state = last.state ∧
      ((stop = none ∧ after = last) ∨
        ∃ reason, stop = some reason ∧ last.step = (after, .stopped reason)) := by
  induction count generalizing machine executed with
  | zero =>
    cases h
    exact ⟨_, rfl, rfl, .inl ⟨rfl, rfl⟩⟩
  | succ count ih =>
    rcases hstep : machine.step with ⟨second, instruction | reason⟩
    · rw [trace_succ_of_executed hstep] at h
      cases h
      obtain ⟨last, hlast, hend⟩ := ih rfl
      refine ⟨last, ?_, hend⟩
      rw [List.length_cons, trace_succ_of_executed hstep, hlast]
    · rw [trace_succ_of_stopped hstep] at h
      cases h
      exact ⟨machine, rfl, state_of_stopped hstep, .inr ⟨reason, rfl, hstep⟩⟩

/-- **What every executed instruction preserves, a trace preserves.** -/
theorem trace_induction {P : List (Nat × Instruction) → Machine → Prop}
    (hstep : ∀ {executed : List (Nat × Instruction)} {before next : Machine}
      {instruction : Instruction}, P executed before → before.step = (next, .executed instruction) →
        P (executed ++ [(before.state.ip, instruction)]) next)
    (hfirst : P [] machine) (h : machine.trace count = (after, executed, none)) :
    P executed after := by
  induction count generalizing after executed with
  | zero =>
    cases h
    exact hfirst
  | succ count ih =>
    rcases hcount : machine.trace count with ⟨before, earlier, _ | reason⟩
    · rw [trace_add_of_executed hcount 1] at h
      rcases hlast : before.step with ⟨next, instruction | reason⟩
      · rw [trace_succ_of_executed hlast] at h
        cases h
        exact hstep (ih hcount) hlast
      · rw [trace_succ_of_stopped hlast] at h
        cases h
    · have hproceed := proceed_add_of_stopped (proceed_of_trace hcount) 1
      rw [proceed_of_trace h] at hproceed
      cases hproceed

end Intcode.Machine
