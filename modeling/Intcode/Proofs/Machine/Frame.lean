import Intcode.Machine.Session
import Intcode.Proofs.Machine.Next
import Intcode.Proofs.Machine.Step

/-!
# What a step leaves alone

`Machine::step` never touches the program and the limit. If it executes an instruction it counts it,
and if it stops, for whatever reason, state and outlet are as before. The inlet can lose a value
even so: an `in` takes its value before it looks where to put it, `pull` before `write`
(`Misplaces`), and this is the only way in which a fault shows afterwards.

Results:
* `program_of_step`, `limit_of_step`, `steps_of_executed`, `queue_of_step`: what is kept by every
  step, or counted.
* `state_of_stopped`, `output_of_stopped`: a step that stops changes neither state nor outlet.
* `Misplaces.step_eq`: a value that cannot be stored is lost.
* **`faulting_step_is_atomic`**: a fault leaves everything as it was, that one value apart.
-/

namespace Intcode.Machine

variable {machine after : Machine} {outcome : Outcome} {instruction : Instruction} {stop : Stop}
  {fault : Fault}

/-! ## Every step -/

theorem program_of_step (h : machine.step = (after, outcome)) :
    after.program = machine.program := by
  cases step_eq_iff.mp h <;> rfl

theorem limit_of_step (h : machine.step = (after, outcome)) : after.limit = machine.limit := by
  cases step_eq_iff.mp h <;> rfl

/-- An executed instruction is counted. -/
theorem steps_of_executed (h : machine.step = (after, .executed instruction)) :
    after.state.steps = machine.state.steps + 1 := by
  cases step_eq_iff.mp h <;> rfl

/-- A queue loses values at its front only. -/
theorem queue_of_step {queue : List Word} (hqueue : machine.input = .queue queue)
    (h : machine.step = (after, outcome)) :
    ∃ taken rest, queue = taken ++ rest ∧ after.input = .queue rest := by
  cases step_eq_iff.mp h with
  | halted | exhausted | crash | internal | starve | wait | send | refuse | block =>
    exact ⟨[], queue, rfl, hqueue⟩
  | receive _ _ _ hpull | misplace _ _ _ hpull =>
    rw [hqueue] at hpull
    cases queue with
    | nil => cases hpull
    | cons value rest =>
      cases hpull
      exact ⟨[_], _, rfl, rfl⟩

/-- An outlet that answers still does after a step. -/
theorem responsive_of_step (houtlet : Session.Responsive Outlet.push machine.output)
    (h : machine.step = (after, outcome)) : Session.Responsive Outlet.push after.output := by
  cases step_eq_iff.mp h with
  | send _ _ _ hpush => exact houtlet.of_accepted hpush
  | halted | exhausted | crash | internal | receive | misplace | starve | wait | refuse | block =>
    exact houtlet

/-- A queue makes nobody wait, nor does an outlet that answers. -/
theorem ne_waiting_of_queue {queue : List Word} (hqueue : machine.input = .queue queue)
    (houtlet : Session.Responsive Outlet.push machine.output)
    (h : machine.step = (after, .stopped stop)) : stop ≠ .waiting := by
  rintro rfl
  cases step_eq_iff.mp h with
  | wait _ _ _ hpull =>
    rw [hqueue] at hpull
    cases queue <;> cases hpull
  | block _ _ _ hpush => exact houtlet.answer _ hpush

/-! ## Steps that stop -/

theorem state_of_stopped (h : machine.step = (after, .stopped stop)) :
    after.state = machine.state := by
  cases step_eq_iff.mp h <;> rfl

theorem output_of_stopped (h : machine.step = (after, .stopped stop)) :
    after.output = machine.output := by
  cases step_eq_iff.mp h <;> rfl

/-- A machine that says it has halted is left as it is. -/
theorem eq_of_halted (h : machine.step = (after, .stopped .halted)) :
    after = machine ∧ machine.state.halted = true := by
  cases step_eq_iff.mp h with
  | halted hhalted => exact ⟨rfl, hhalted⟩

/-- **The step takes a value that it cannot store**: the instruction is an `in`, there is a value,
and no cell has the address that it gives. -/
structure Misplaces (machine : Machine) (dest value : Word) (rest : Inlet) : Prop where
  exhausted_eq : machine.exhausted? = none
  decode_eq : machine.state.memory.decode machine.state.ip = .ok (.input dest)
  pull_eq : machine.input.pull = .value value rest
  index_eq : machine.state.memory.index? dest = none

/-- A value that cannot be stored is lost. -/
theorem Misplaces.step_eq {dest value : Word} {rest : Inlet}
    (h : machine.Misplaces dest value rest) (hrun : machine.state.halted = false) :
    machine.step = ({ machine with input := rest }, .stopped (.faulted
      (.addressOutOfRange machine.state.ip dest machine.state.memory.size))) := by
  have hnext := (State.Asks.input h.decode_eq).next_eq
  have hdest : machine.state.destination dest = .error (machine.state.outOfRange dest) :=
    State.destination_eq_error_iff.mpr ⟨h.index_eq, rfl⟩
  exact (Steps.misplace hrun h.exhausted_eq hnext h.pull_eq hdest).step_eq

/-- A faulting step leaves the machine as it is, or takes a value that it cannot store. -/
theorem eq_or_misplaces (h : machine.step = (after, .stopped (.faulted fault))) :
    after = machine ∨ ∃ dest value rest, machine.Misplaces dest value rest := by
  cases step_eq_iff.mp h with
  | exhausted | crash | starve | refuse => exact .inl rfl
  | @misplace _ dest value rest _ _ hlimit hnext hpull hdest =>
    have hasks := machine.state.yields_next.of_ok hnext
    have hindex := (State.destination_eq_error_iff.mp hdest).1
    cases hasks with
    | input hdecode => exact .inr ⟨dest, value, rest, hlimit, hdecode, hpull, hindex⟩

/-- **A fault is atomic.** If a step of any machine faults, its state, its outlet, its program and
its limit are as before the step. So is its inlet, unless the instruction is an `in` that takes a
value and has nowhere to put it: then the inlet has lost that value and nothing else, and the
fault names the address. If the inlet has lost nothing, the next step faults in the same
way. -/
theorem faulting_step_is_atomic (machine : Machine) {after : Machine} {fault : Fault}
    (h : machine.step = (after, .stopped (.faulted fault))) :
    after.state = machine.state ∧ after.output = machine.output ∧
      after.program = machine.program ∧ after.limit = machine.limit ∧
      (∀ dest value rest, machine.Misplaces dest value rest →
        after.input = rest ∧ machine.input.pending = value :: after.input.pending ∧
          fault = .addressOutOfRange machine.state.ip dest machine.state.memory.size) ∧
      ((¬ ∃ dest value rest, machine.Misplaces dest value rest) → after.input = machine.input) ∧
      (after.input = machine.input → after.step = (after, .stopped (.faulted fault))) := by
  have hstate := state_of_stopped h
  have houtput := output_of_stopped h
  have hprogram := program_of_step h
  have hlimit := limit_of_step h
  refine ⟨hstate, houtput, hprogram, hlimit, fun dest value rest hlost => ?_, fun hnone => ?_,
    fun hinput => ?_⟩
  · have hrun : machine.state.halted = false := by
      cases step_eq_iff.mp h <;> assumption
    have heq := h.symm.trans (hlost.step_eq hrun)
    simp only [Prod.mk.injEq, Outcome.stopped.injEq, Stop.faulted.injEq] at heq
    obtain ⟨rfl, rfl⟩ := heq
    exact ⟨rfl, Inlet.pending_of_pull hlost.pull_eq, rfl⟩
  · rcases eq_or_misplaces h with rfl | hlost
    · rfl
    · exact absurd hlost hnone
  · have hsame : after = machine := by
      cases after
      cases machine
      cases hstate; cases houtput; cases hprogram; cases hlimit; cases hinput
      rfl
    rw [hsame] at h ⊢
    exact h

/-- A machine with two values to take, whose first instruction stores one outside of memory. -/
def misplacing (limit : Option Nat) : Machine where
  program := ⟨[3, 9, 99]⟩
  input := .queue [7, 8]
  limit := limit

/-- The machine loses the first of its values; with its limit used up it loses none, and faults
again. -/
theorem faulting_step_is_atomic_misplacing :
    (∃ after fault, (misplacing none).step = (after, .stopped (.faulted fault)) ∧
      after.state = (misplacing none).state ∧ after.input = .queue [8] ∧
      fault = .addressOutOfRange 0 9 3) ∧
    ∃ after fault, (misplacing (some 0)).step = (after, .stopped (.faulted fault)) ∧
      after.input = .queue [7, 8] ∧ after.step = (after, .stopped (.faulted fault)) := by
  constructor
  · refine ⟨_, _, rfl, ?_⟩
    obtain ⟨hstate, -, -, -, hlost, -⟩ := faulting_step_is_atomic (misplacing none) rfl
    obtain ⟨hinput, -, hfault⟩ := hlost 9 7 (.queue [8]) ⟨rfl, rfl, rfl, rfl⟩
    exact ⟨hstate, hinput, hfault⟩
  · refine ⟨_, _, rfl, rfl, ?_⟩
    obtain ⟨-, -, -, -, -, -, hagain⟩ := faulting_step_is_atomic (misplacing (some 0)) rfl
    exact hagain rfl

end Intcode.Machine
