import Intcode.Proofs.Machine.Advance
import Intcode.Proofs.Machine.Trace

/-!
# What a run has received and sent

A machine keeps four accounts of its run: the counter of instructions (`steps`), what is left in its
queue, the log of outputs (`outputs`) with the last of them (`last_output`), and the halted flag.
Each is kept in a place of its own, and none of them by looking at the instructions executed so far.
They agree with these all the same (`Balanced`), at every point of a run and whatever the program
makes of itself. There is one exception, and it is on the last step of a run: an `in` that has taken
a value and finds no cell at the address that it gives has not been executed (`Strays`).

Results:
* `Balanced.step`, `balanced_of_trace`: the accounts are balanced after every executed instruction.
* `outputs_prefix_of_proceed`: the log of outputs only grows.
* `exists_taken_of_trace`: how many values a run has taken.
* `exists_stored_of_trace`, `exists_logged_of_trace`: which of them an `in` has stored, and what an
  `out` has logged.
* `runs_finished_iff_of_trace`: a run has a result exactly if it has executed the halt.
* **`io_is_accounted_for`**: all of this for every program on a queue.
-/

namespace Intcode

namespace Inlet

/-- What is pulled from a queue that has lost some values is the next of them. -/
theorem of_pull_drop {words : List Word} {n : Nat} {value : Word} {rest : Inlet}
    (h : (queue (words.drop n)).pull = .value value rest) :
    words[n]? = some value ∧ rest = .queue (words.drop (n + 1)) := by
  cases hdrop : words.drop n with
  | nil =>
    rw [hdrop] at h
    cases h
  | cons first left =>
    rw [hdrop] at h
    cases h
    constructor
    · rw [← List.head?_drop, hdrop]
      rfl
    · rw [← List.tail_drop, hdrop]
      rfl

end Inlet

namespace Machine

/-- How often an operation occurs among executed instructions. -/
def tally (opcode : Opcode) (executed : List (Nat × Instruction)) : Nat :=
  executed.countP fun line => line.2.opcode = opcode

theorem tally_concat (opcode : Opcode) (executed : List (Nat × Instruction)) (ip : Nat)
    (instruction : Instruction) :
    tally opcode (executed ++ [(ip, instruction)]) =
      tally opcode executed + if instruction.opcode = opcode then 1 else 0 := by
  simp [tally, List.countP_append, List.countP_singleton]

/-- **The accounts of a run on a queue agree with the instructions that it has executed.** -/
structure Balanced (queue : List Word) (executed : List (Nat × Instruction)) (machine : Machine) :
    Prop where
  steps_eq : machine.state.steps = executed.length
  taken_le : tally .input executed ≤ queue.length
  input_eq : machine.input = .queue (queue.drop (tally .input executed))
  size_eq : machine.state.outputs.size = tally .output executed
  last_eq : machine.state.last = machine.state.outputs.back?
  halted_iff : machine.state.halted = true ↔ ∃ ip, (ip, .halt) ∈ executed

variable {machine after : Machine} {queue : List Word} {executed : List (Nat × Instruction)}
  {instruction : Instruction} {stop : Option Stop} {count : Nat}

/-! ## One instruction -/

/-- A run that goes on has not halted, so it has come to a halt exactly if this is one. -/
theorem Balanced.halted_iff_step (h : Balanced queue executed machine)
    (hstep : machine.step = (after, .executed instruction)) :
    after.state.halted = true ↔
      ∃ ip, (ip, .halt) ∈ executed ++ [(machine.state.ip, instruction)] := by
  have hnone : ¬ ∃ ip, (ip, .halt) ∈ executed := by
    rw [← h.halted_iff, running_of_executed hstep]
    simp
  rw [halted_of_executed hstep]
  constructor
  · rintro rfl
    exact ⟨machine.state.ip, by simp⟩
  · rintro ⟨ip, hmem⟩
    rcases List.mem_append.mp hmem with hearlier | hlast
    · exact absurd ⟨ip, hearlier⟩ hnone
    · cases List.mem_singleton.mp hlast
      rfl

/-- **An executed instruction keeps the accounts balanced.** -/
theorem Balanced.step (h : Balanced queue executed machine)
    (hstep : machine.step = (after, .executed instruction)) :
    Balanced queue (executed ++ [(machine.state.ip, instruction)]) after := by
  have hnext := machine.state.yields_next
  have hsteps : after.state.steps = (executed ++ [(machine.state.ip, instruction)]).length := by
    rw [steps_of_executed hstep, h.steps_eq, List.length_append, List.length_singleton]
  have hhalted := h.halted_iff_step hstep
  have htake := tally_concat .input executed machine.state.ip instruction
  have hlog := tally_concat .output executed machine.state.ip instruction
  cases step_eq_iff.mp hstep with
  | internal _ _ hasks =>
    have hother : instruction.opcode ≠ .input ∧ instruction.opcode ≠ .output := by
      cases hnext.of_ok hasks <;> exact ⟨nofun, nofun⟩
    rw [if_neg hother.1] at htake
    rw [if_neg hother.2] at hlog
    exact ⟨hsteps, htake ▸ h.taken_le, htake ▸ h.input_eq, hlog ▸ h.size_eq, h.last_eq, hhalted⟩
  | receive _ _ hasks hpull =>
    cases hnext.of_ok hasks with
    | input =>
      rw [h.input_eq] at hpull
      obtain ⟨hvalue, rfl⟩ := Inlet.of_pull_drop hpull
      have hlt := (List.getElem?_eq_some_iff.mp hvalue).1
      exact ⟨hsteps, htake ▸ hlt, htake ▸ rfl, hlog ▸ h.size_eq, h.last_eq, hhalted⟩
  | send _ _ hasks =>
    cases hnext.of_ok hasks with
    | output =>
      refine ⟨hsteps, htake ▸ h.taken_le, htake ▸ h.input_eq, ?_, ?_, hhalted⟩
      · rw [hlog, State.sent, Array.size_push, h.size_eq]
        rfl
      · simp [State.sent]

/-- No step takes anything out of the log. -/
theorem outputs_prefix_of_step {outcome : Outcome} (h : machine.step = (after, outcome)) :
    machine.state.outputs.toList <+: after.state.outputs.toList := by
  cases step_eq_iff.mp h with
  | halted | exhausted | crash | internal | receive | misplace | starve | wait | refuse | block =>
    exact List.prefix_refl _
  | send =>
    rw [State.sent, Array.toList_push]
    exact List.prefix_append _ _

/-! ## Many instructions -/

/-- **The accounts of a run are balanced after every executed instruction.** -/
theorem balanced_of_trace (hqueue : machine.input = .queue queue)
    (h : machine.reset.trace count = (after, executed, none)) : Balanced queue executed after := by
  have hstart : Balanced queue [] machine.reset :=
    ⟨rfl, Nat.zero_le _, hqueue, rfl, rfl, by simp [reset, State.fresh]⟩
  exact trace_induction (fun hbalanced hstep => hbalanced.step hstep) hstart h

/-- **The log of outputs only grows.** -/
theorem outputs_prefix_of_proceed (h : machine.proceed count = (after, stop)) :
    machine.state.outputs.toList <+: after.state.outputs.toList := by
  have hgrows := proceed_induction
    (P := fun other => machine.state.outputs.toList <+: other.state.outputs.toList)
    (fun _ hother => hother.trans (outputs_prefix_of_step rfl)) count (List.prefix_refl _)
  rwa [h] at hgrows

/-! ## Input -/

/-- **The run has ended with a value in hand**: the instruction at the pointer is an `in` that has
no cell to store into, and this was the fault. -/
def Strays (after : Machine) (stop : Option Stop) : Prop :=
  ∃ dest, after.state.memory.decode after.state.ip = .ok (.input dest) ∧
    after.state.memory.index? dest = none ∧
    stop = some (.faulted (.addressOutOfRange after.state.ip dest after.state.memory.size))

/-- A step that stops leaves the inlet alone, unless it strays. -/
theorem input_of_stopped {reason : Stop} (h : machine.step = (after, .stopped reason)) :
    (after.Strays (some reason) ∧
        ∃ value, machine.input.pull = .value value after.input) ∨
      (¬ after.Strays (some reason) ∧ after.input = machine.input) := by
  have hnext := machine.state.yields_next
  cases step_eq_iff.mp h with
  | halted | exhausted | starve | wait | refuse | block =>
    refine .inr ⟨?_, rfl⟩
    rintro ⟨dest, -, -, hstop⟩
    cases hstop
  | crash _ _ hcrash =>
    refine .inr ⟨?_, rfl⟩
    rintro ⟨dest, hdecode, -, -⟩
    rw [(State.Asks.input hdecode).next_eq] at hcrash
    cases hcrash
  | misplace _ _ hasks hpull hdest =>
    obtain ⟨hindex, rfl⟩ := State.destination_eq_error_iff.mp hdest
    cases hnext.of_ok hasks with
    | input hdecode => exact .inl ⟨⟨_, hdecode, hindex, rfl⟩, _, hpull⟩

/-- **How many values a run has taken**: one for each `in` that it has executed, and one more
exactly if it strays. -/
theorem exists_taken_of_trace (hqueue : machine.input = .queue queue)
    (h : machine.reset.trace count = (after, executed, stop)) :
    ∃ taken rest, queue = taken ++ rest ∧ after.input = .queue rest ∧
      ((after.Strays stop ∧ taken.length = tally .input executed + 1) ∨
        (¬ after.Strays stop ∧ taken.length = tally .input executed)) := by
  obtain ⟨last, hlast, -, hend⟩ := exists_last_of_trace h
  have hbalanced := balanced_of_trace hqueue hlast
  have hlength := List.length_take_of_le hbalanced.taken_le
  rcases hend with ⟨rfl, rfl⟩ | ⟨reason, rfl, hstop⟩
  · refine ⟨_, _, (List.take_append_drop _ queue).symm, hbalanced.input_eq, .inr ⟨?_, hlength⟩⟩
    rintro ⟨dest, -, -, hstop⟩
    cases hstop
  · rcases input_of_stopped hstop with ⟨hstrays, value, hpull⟩ | ⟨hstays, hinput⟩
    · rw [hbalanced.input_eq] at hpull
      obtain ⟨hvalue, hrest⟩ := Inlet.of_pull_drop hpull
      have hlt := (List.getElem?_eq_some_iff.mp hvalue).1
      exact ⟨_, _, (List.take_append_drop _ queue).symm, hrest,
        .inl ⟨hstrays, List.length_take_of_le hlt⟩⟩
    · exact ⟨_, _, (List.take_append_drop _ queue).symm, hinput.trans hbalanced.input_eq,
        .inr ⟨hstays, hlength⟩⟩

/-- **What an `in` has stored**: the value of the queue that comes after those of all earlier
ones. -/
theorem exists_stored_of_trace (hqueue : machine.input = .queue queue)
    (h : machine.reset.trace count = (after, executed, stop)) {i ip : Nat} {dest : Word}
    (hline : executed[i]? = some (ip, .input dest)) :
    ∃ before next index value, machine.reset.proceed i = (before, none) ∧
      before.step = (next, .executed (.input dest)) ∧
      before.state.memory.index? dest = some index ∧
      queue[tally .input (executed.take i)]? = some value ∧
      next.state.memory = before.state.memory.set index value := by
  obtain ⟨before, next, hbefore, -, hstep⟩ := exists_of_getElem?_trace h hline
  have hbalanced := balanced_of_trace hqueue hbefore
  have hasked := before.state.yields_next
  cases step_eq_iff.mp hstep with
  | internal _ _ hasks | send _ _ hasks => cases hasked.of_ok hasks
  | @receive _ dest value rest index _ _ hasks hpull hdest =>
    cases hasked.of_ok hasks with
    | input =>
      rw [hbalanced.input_eq] at hpull
      exact ⟨before, _, index, value, proceed_of_trace hbefore, hstep,
        State.destination_eq_ok_iff.mp hdest, (Inlet.of_pull_drop hpull).1, rfl⟩

/-! ## Output -/

/-- **What an `out` has logged**: the operand at the time, behind what all earlier ones have
logged. -/
theorem exists_logged_of_trace (hqueue : machine.input = .queue queue)
    (h : machine.reset.trace count = (after, executed, stop)) {i ip : Nat} {operand : Operand}
    (hline : executed[i]? = some (ip, .output operand)) :
    ∃ before value, machine.reset.proceed i = (before, none) ∧
      before.state.read operand = .ok value ∧
      after.state.outputs[tally .output (executed.take i)]? = some value := by
  obtain ⟨before, next, hbefore, -, hstep⟩ := exists_of_getElem?_trace h hline
  have hbalanced := balanced_of_trace hqueue hbefore
  have hasked := before.state.yields_next
  cases step_eq_iff.mp hstep with
  | internal _ _ hasks | receive _ _ hasks => cases hasked.of_ok hasks
  | @send _ value outlet _ _ hasks =>
    cases hasked.of_ok hasks with
    | output _ hread =>
      refine ⟨before, value, proceed_of_trace hbefore, hread, ?_⟩
      -- it stands at the end of the log right after this instruction, and stays there
      have hlt := (List.getElem?_eq_some_iff.mp hline).1
      have hle := length_le_of_trace h
      obtain ⟨extra, rfl⟩ := Nat.exists_eq_add_of_le (Nat.le_trans hlt hle)
      have hrest := proceed_add_of_executed (proceed_snoc (proceed_of_trace hbefore) hstep) extra
      rw [← Nat.succ_eq_add_one, proceed_of_trace h] at hrest
      obtain ⟨more, hmore⟩ := outputs_prefix_of_proceed hrest.symm
      rw [← Array.getElem?_toList, ← hmore, ← hbalanced.size_eq]
      simp [State.sent]

/-! ## The end of a run -/

/-- Nothing is executed after the halt. -/
theorem eq_length_of_halt (hqueue : machine.input = .queue queue)
    (h : machine.reset.trace count = (after, executed, stop)) {i ip : Nat}
    (hline : executed[i]? = some (ip, .halt)) : i + 1 = executed.length := by
  have hlt := (List.getElem?_eq_some_iff.mp hline).1
  cases hnext : executed[i + 1]? with
  | none =>
    have hle := List.getElem?_eq_none_iff.mp hnext
    omega
  | some line =>
    obtain ⟨before, next, hbefore, -, hstep⟩ := exists_of_getElem?_trace h hnext
    have hmem : (ip, .halt) ∈ executed.take (i + 1) := by
      rw [List.mem_iff_getElem?]
      exact ⟨i, by rw [List.getElem?_take_of_lt (Nat.lt_succ_self i), hline]⟩
    have hhalted := (balanced_of_trace hqueue hbefore).halted_iff.mpr ⟨ip, hmem⟩
    rw [running_of_executed hstep] at hhalted
    cases hhalted

/-- **A run has a result exactly if it has executed the halt**, and then it is the last value of
the log. -/
theorem runs_finished_iff_of_trace (hqueue : machine.input = .queue queue)
    (h : machine.reset.trace count = (after, executed, stop)) (result : Option Word) :
    machine.Runs after (.finished result) ↔
      (∃ ip, (ip, .halt) ∈ executed) ∧ result = after.state.outputs.back? := by
  obtain ⟨last, hlast, hstate, hend⟩ := exists_last_of_trace h
  have hbalanced := balanced_of_trace hqueue hlast
  rw [hstate, ← hbalanced.halted_iff, ← hbalanced.last_eq]
  constructor
  · intro hruns
    obtain ⟨count', ⟨final, -, hfinal⟩, hresult⟩ := hruns.exists_stops_halted
    obtain ⟨rfl, hhalted⟩ := eq_of_halted hfinal
    rw [hstate] at hhalted hresult
    exact ⟨hhalted, hresult.symm⟩
  · rintro ⟨hhalted, rfl⟩
    have hnoticed : last.step = (last, .stopped .halted) := (Steps.halted hhalted).step_eq
    have hafter : after = last := by
      rcases hend with ⟨-, rfl⟩ | ⟨reason, -, hstop⟩
      · rfl
      · rw [hnoticed] at hstop
        exact (congrArg Prod.fst hstop).symm
    rw [hafter]
    exact Runs.of_stops ⟨last, proceed_of_trace hlast, hnoticed⟩ nofun

/-! ## Main result -/

/-- **A run accounts for its input and output.** Take any program on any queue, at any outlet and
with any limit or none, whatever state the machine is in before its run; let the run take up to
`fuel` steps, and consider the instructions that it has executed.

The counter of instructions is their number. For each `in` among them one value has been taken from
the queue, and it is the one that this `in` has stored; one more value has been taken exactly if the
run has ended with an `in` whose destination is out of range. For each `out` there is one output,
the operand at the time. The halt can only be the last of them, and the run returns a result exactly
if it is among them: the last output, or none if there is no `out`. -/
theorem io_is_accounted_for (program : Program) (queue : List Word) (output : Outlet)
    (limit : Option Nat) (state : State) (fuel : Nat) :
    let machine : Machine := { program, input := .queue queue, output, limit, state }
    ∀ (after : Machine) (executed : List (Nat × Instruction)) (stop : Option Stop),
      machine.reset.trace fuel = (after, executed, stop) →
      (machine.run fuel).1 = after ∧
      after.state.steps = executed.length ∧
      (∃ taken rest, queue = taken ++ rest ∧ after.input = .queue rest ∧
        ((after.Strays stop ∧ taken.length = tally .input executed + 1) ∨
          (¬ after.Strays stop ∧ taken.length = tally .input executed))) ∧
      (∀ i ip dest, executed[i]? = some (ip, .input dest) →
        ∃ before next index value, machine.reset.proceed i = (before, none) ∧
          before.step = (next, .executed (.input dest)) ∧
          before.state.memory.index? dest = some index ∧
          queue[tally .input (executed.take i)]? = some value ∧
          next.state.memory = before.state.memory.set index value) ∧
      after.state.outputs.size = tally .output executed ∧
      (∀ i ip operand, executed[i]? = some (ip, .output operand) →
        ∃ before value, machine.reset.proceed i = (before, none) ∧
          before.state.read operand = .ok value ∧
          after.state.outputs[tally .output (executed.take i)]? = some value) ∧
      (∀ i ip, executed[i]? = some (ip, .halt) → i + 1 = executed.length) ∧
      ∀ result, machine.Runs after (.finished result) ↔
        (∃ ip, (ip, .halt) ∈ executed) ∧ result = after.state.outputs.back? := by
  intro machine after executed stop h
  have hqueue : machine.input = .queue queue := rfl
  obtain ⟨last, hlast, hstate, -⟩ := exists_last_of_trace h
  have hbalanced := balanced_of_trace hqueue hlast
  refine ⟨?_, ?_, exists_taken_of_trace hqueue h,
    fun i ip dest hline => exists_stored_of_trace hqueue h hline, ?_,
    fun i ip operand hline => exists_logged_of_trace hqueue h hline,
    fun i ip hline => eq_length_of_halt hqueue h hline, runs_finished_iff_of_trace hqueue h⟩
  · rw [fst_run, proceed_of_trace h]
  · rw [hstate, hbalanced.steps_eq]
  · rw [hstate, hbalanced.size_eq]

/-- A program that outputs the first two values of its queue in the order in which they come, and
then has nowhere to put the third. -/
def overfed : Machine where
  program := ⟨[3, 11, 4, 11, 3, 11, 4, 11, 3, 12, 99, 0]⟩
  input := .queue [5, 6, 7, 8]

/-- Two `in` and two `out` have been executed, but three values taken. -/
theorem io_is_accounted_for_overfed :
    ∃ after executed stop, overfed.reset.trace 9 = (after, executed, stop) ∧
      executed = [(0, .input 11), (2, .output ⟨11, .position⟩), (4, .input 11),
        (6, .output ⟨11, .position⟩)] ∧
      after.Strays stop ∧
      (∃ taken rest, [5, 6, 7, 8] = taken ++ rest ∧ after.input = .queue rest ∧
        taken.length = 3) ∧
      after.state.outputs[1]? = some 6 ∧
      ¬ ∃ result, overfed.Runs after (.finished result) := by
  obtain ⟨-, -, htaken, -, -, hlogged, -, hruns⟩ := io_is_accounted_for overfed.program [5, 6, 7, 8]
    .discard none overfed.state 9 _ _ _ rfl
  have hstrays : (overfed.reset.trace 9).1.Strays (overfed.reset.trace 9).2.2 :=
    ⟨12, rfl, rfl, rfl⟩
  refine ⟨_, _, _, rfl, rfl, hstrays, ?_, ?_, ?_⟩
  · obtain ⟨taken, rest, hqueue, hrest, ⟨-, hlength⟩ | ⟨hstays, -⟩⟩ := htaken
    · exact ⟨taken, rest, hqueue, hrest, hlength⟩
    · exact absurd hstrays hstays
  · obtain ⟨before, value, hbefore, hread, hvalue⟩ := hlogged 3 6 ⟨11, .position⟩ rfl
    cases hbefore
    cases hread
    exact hvalue
  · rintro ⟨result, hfinished⟩
    obtain ⟨⟨ip, hmem⟩, -⟩ := (hruns result).mp hfinished
    exact absurd hmem (by simp)

end Machine

end Intcode
