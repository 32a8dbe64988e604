import Intcode.Proofs.Machine.Next
import Intcode.Proofs.Machine.Step

/-!
# What always holds of a machine

The owner of a machine can run it, step it, reset it, give it other ports (`with_input`,
`with_output`), change the ports it has (`input_mut`, `output_mut`) and set its limit
(`with_step_limit`), in any order and also after a fault (`Machine.Operation`). Whatever is done,
the state stays `Sound`: the memory keeps its size, the last output is the last of the log, there is
an instruction for every output and one more for the halt, the pointer is an address that a word
holds, and a halted machine points at a halt instruction. The last two are about code that rewrites
itself: a halt is the one instruction that leaves both memory and pointer alone.

Results:
* `State.Sound.perform`, `State.Sound.received`, `State.Sound.sent`: an instruction keeps the
  state sound.
* `Sound.step`, `Within.step`: so does a step, and it stays within the limit.
* `Sound.apply`, `Within.apply`: so does every operation, the limit being left alone.
* **`sound_after_operations`**: all that for every sequence of operations on a new machine.
-/

namespace Intcode

namespace State

/-- What holds of the state of a run of a program at any time. -/
structure Sound (program : Program) (state : State) : Prop where
  size_eq : state.memory.size = program.size
  last_eq : state.last = state.outputs.back?
  logged_le : state.outputs.size + (if state.halted then 1 else 0) ≤ state.steps
  ip_lt : (state.ip : Int) < Word.bound
  decode_eq : state.halted = true → state.memory.decode state.ip = .ok .halt

theorem sound_fresh (program : Program) : (fresh program).Sound program where
  size_eq := by simp [fresh, Memory.ofProgram, Memory.size, Program.size]
  last_eq := rfl
  logged_le := Nat.le_refl 0
  ip_lt := by simp [fresh, Word.bound]
  decode_eq := fun h => by cases h

variable {program : Program} {state : State}

/-! ## Instructions -/

/-- The address behind an instruction is one that a word holds. -/
theorem Sound.behind_lt (h : state.Sound program) (hsize : (program.size : Int) < Word.bound)
    {instruction : Instruction} {action : Action} (hasks : state.Asks instruction action) :
    (state.behind instruction.opcode : Int) < Word.bound := by
  have hle := hasks.behind_le
  rw [h.size_eq] at hle
  omega

theorem Sound.perform (h : state.Sound program) (hsize : (program.size : Int) < Word.bound)
    (hrun : state.halted = false) {instruction : Instruction} {effect : Effect}
    (hasks : state.Asks instruction (.internal effect)) : (state.perform effect).Sound program := by
  have hlogged := h.logged_le
  rw [hrun] at hlogged
  refine ⟨(Memory.size_write _ _).trans h.size_eq, h.last_eq, ?_, ?_, ?_⟩
  · show state.outputs.size + (if effect.halted then 1 else 0) ≤ state.steps + 1
    cases effect.halted with
    | true => exact Nat.succ_le_succ hlogged
    | false => exact Nat.le_succ_of_le hlogged
  · have hbehind := h.behind_lt hsize hasks
    cases hasks with
    | compute => exact hbehind
    | skip => exact hbehind
    | jump _ _ _ htarget => exact (state.yields_target _).of_ok htarget
    | halt => exact h.ip_lt
  · intro hhalted
    -- of the instructions that neither receive nor send only the halt ends the run
    cases hasks with
    | compute | jump | skip => cases hhalted
    | halt hdecode => exact hdecode

theorem Sound.received (h : state.Sound program) (hsize : (program.size : Int) < Word.bound)
    (hrun : state.halted = false) {instruction : Instruction} {dest : Word}
    (hasks : state.Asks instruction (.receive dest)) (index : Nat) (value : Word) :
    (state.received index value).Sound program := by
  have hbehind := h.behind_lt hsize hasks
  have hlogged := h.logged_le
  refine ⟨(Memory.size_set _ _ _).trans h.size_eq, h.last_eq, Nat.le_succ_of_le hlogged, ?_, ?_⟩
  · cases hasks with
    | input => exact hbehind
  · intro hhalted
    rw [show (state.received index value).halted = state.halted from rfl, hrun] at hhalted
    cases hhalted

theorem Sound.sent (h : state.Sound program) (hsize : (program.size : Int) < Word.bound)
    (hrun : state.halted = false) {instruction : Instruction} {value : Word}
    (hasks : state.Asks instruction (.send value)) : (state.sent value).Sound program := by
  have hbehind := h.behind_lt hsize hasks
  have hlogged := h.logged_le
  refine ⟨h.size_eq, by simp [State.sent], ?_, ?_, ?_⟩
  · rw [hrun] at hlogged
    simpa [State.sent, hrun] using hlogged
  · cases hasks with
    | output => exact hbehind
  · intro hhalted
    rw [show (state.sent value).halted = state.halted from rfl, hrun] at hhalted
    cases hhalted

end State

namespace Machine

/-! ## Steps -/

/-- The machine has the program it was made from, and a sound state. -/
structure Sound (program : Program) (machine : Machine) : Prop where
  program_eq : machine.program = program
  state : machine.state.Sound program

/-- The machine has this limit and has not exceeded it. -/
structure Within (limit : Nat) (machine : Machine) : Prop where
  limit_eq : machine.limit = some limit
  steps_le : machine.state.steps ≤ limit

variable {program : Program} {machine : Machine} {limit : Nat}

/-- **A step keeps a machine sound**, whether it executes an instruction, faults or waits. -/
theorem Sound.step (h : machine.Sound program) (hsize : (program.size : Int) < Word.bound) :
    machine.step.1.Sound program := by
  have hnext := machine.state.yields_next
  rcases hstep : machine.step with ⟨after, outcome⟩
  cases step_eq_iff.mp hstep with
  | halted | exhausted | crash | misplace | starve | wait | refuse | block =>
    exact ⟨h.program_eq, h.state⟩
  | internal hrun _ hasks =>
    exact ⟨h.program_eq, h.state.perform hsize hrun (hnext.of_ok hasks)⟩
  | receive hrun _ hasks =>
    exact ⟨h.program_eq, h.state.received hsize hrun (hnext.of_ok hasks) _ _⟩
  | send hrun _ hasks => exact ⟨h.program_eq, h.state.sent hsize hrun (hnext.of_ok hasks)⟩

theorem Within.steps_lt (h : machine.Within limit) (hlimit : machine.exhausted? = none) :
    machine.state.steps < limit := by
  unfold exhausted? at hlimit
  rw [h.limit_eq, Option.filter_eq_none_iff] at hlimit
  have hnot := hlimit limit rfl
  simpa using hnot

/-- **A step stays within the limit.** -/
theorem Within.step (h : machine.Within limit) : machine.step.1.Within limit := by
  rcases hstep : machine.step with ⟨after, outcome⟩
  cases step_eq_iff.mp hstep with
  | halted | exhausted | crash | misplace | starve | wait | refuse | block =>
    exact ⟨h.limit_eq, h.steps_le⟩
  | internal _ hlimit | receive _ hlimit | send _ hlimit => exact ⟨h.limit_eq, h.steps_lt hlimit⟩

/-! ## Operations -/

/-- What can be done with a machine. -/
inductive Operation where
  /-- Run it from the start; `fuel` bounds how far it gets. -/
  | run (fuel : Nat)
  | step
  | reset
  /-- Give it another inlet, or change the one it has. -/
  | setInput (inlet : Inlet)
  /-- Give it another outlet, or change the one it has. -/
  | setOutput (outlet : Outlet)
  | setLimit (limit : Nat)

/-- The machine after an operation. -/
def apply (machine : Machine) : Operation → Machine
  | .run fuel => (machine.run fuel).1
  | .step => machine.step.1
  | .reset => machine.reset
  | .setInput inlet => { machine with input := inlet }
  | .setOutput outlet => { machine with output := outlet }
  | .setLimit limit => { machine with limit := some limit }

/-- The machine after operations, one after the other. -/
def operate (machine : Machine) (history : List Operation) : Machine := history.foldl apply machine

/-- What every step preserves, any number of steps preserves. -/
theorem proceed_induction {P : Machine → Prop} (hstep : ∀ machine, P machine → P machine.step.1)
    (fuel : Nat) {machine : Machine} (h : P machine) : P (machine.proceed fuel).1 := by
  induction fuel generalizing machine with
  | zero => exact h
  | succ fuel ih =>
    have hnext := hstep machine h
    rw [proceed]
    rcases hfirst : machine.step with ⟨after, outcome⟩
    rw [hfirst] at hnext
    cases outcome with
    | executed instruction => exact ih hnext
    | stopped stop => exact hnext

theorem fst_run (machine : Machine) (fuel : Nat) :
    (machine.run fuel).1 = (machine.reset.proceed fuel).1 := by
  unfold run
  rcases machine.reset.proceed fuel with ⟨after, stop⟩
  cases stop with
  | none => rfl
  | some stop => cases stop <;> rfl

/-- **What every operation of a history preserves, the history preserves.** -/
theorem operate_induction {P : Machine → Prop} (history : List Operation)
    (happly : ∀ operation ∈ history, ∀ machine, P machine → P (machine.apply operation))
    {machine : Machine} (h : P machine) : P (machine.operate history) := by
  induction history generalizing machine with
  | nil => exact h
  | cons operation rest ih =>
    refine ih (fun other hother => happly other (List.mem_cons_of_mem _ hother)) ?_
    exact happly operation List.mem_cons_self machine h

theorem Sound.reset (h : machine.Sound program) : machine.reset.Sound program := by
  obtain ⟨rfl, -⟩ := h
  exact ⟨rfl, State.sound_fresh _⟩

/-- **Every operation keeps a machine sound.** -/
theorem Sound.apply (h : machine.Sound program) (hsize : (program.size : Int) < Word.bound)
    (operation : Operation) : (machine.apply operation).Sound program := by
  cases operation with
  | run fuel =>
    rw [Machine.apply, fst_run]
    exact proceed_induction (fun _ hsound => hsound.step hsize) fuel h.reset
  | step => exact h.step hsize
  | reset => exact h.reset
  | setInput | setOutput | setLimit => exact ⟨h.program_eq, h.state⟩

theorem Within.reset (h : machine.Within limit) : machine.reset.Within limit :=
  ⟨h.limit_eq, Nat.zero_le limit⟩

/-- **Every operation stays within the limit**, unless it sets another. -/
theorem Within.apply (h : machine.Within limit) {operation : Operation}
    (hkeep : ∀ other, operation ≠ .setLimit other) : (machine.apply operation).Within limit := by
  cases operation with
  | run fuel =>
    rw [Machine.apply, fst_run]
    exact proceed_induction (fun _ hwithin => hwithin.step) fuel h.reset
  | step => exact h.step
  | reset => exact h.reset
  | setInput | setOutput => exact ⟨h.limit_eq, h.steps_le⟩
  | setLimit other => exact absurd rfl (hkeep other)

theorem operate_append (machine : Machine) (before after : List Operation) :
    machine.operate (before ++ after) = (machine.operate before).operate after :=
  List.foldl_append

/-- **What always holds of a machine.** Make a machine from a program of fewer than `2^63` words and
do anything with it. Then it still has that program; its memory has as many cells as the program has
words; its last output is the last of its log, and there is none exactly if the log is empty; it has
executed an instruction for every output and one more if it has halted; its pointer is less than
`2^63`; if it has halted, there is a halt instruction at the pointer, and a further step says that
it has halted and changes nothing; and if a limit was set when it was not yet exceeded, and no other
since, then it is not exceeded. -/
theorem sound_after_operations (program : Program) (hsize : (program.size : Int) < Word.bound)
    (history : List Operation) {machine : Machine}
    (hmachine : ({ program } : Machine).operate history = machine) :
    machine.program = program ∧
      machine.state.memory.size = program.size ∧
      machine.state.last = machine.state.outputs.back? ∧
      (machine.state.last = none ↔ machine.state.outputs = #[]) ∧
      machine.state.outputs.size + (if machine.state.halted then 1 else 0) ≤ machine.state.steps ∧
      (machine.state.ip : Int) ≤ Word.bound - 1 ∧
      (machine.state.halted = true →
        machine.state.memory.decode machine.state.ip = .ok .halt ∧
          machine.step = (machine, .stopped .halted)) ∧
      ∀ (before after : List Operation) (limit : Nat),
        history = before ++ .setLimit limit :: after →
        (∀ other, .setLimit other ∉ after) →
        (({ program } : Machine).operate before).state.steps ≤ limit →
        machine.limit = some limit ∧ machine.state.steps ≤ limit := by
  have hfresh : ({ program } : Machine).Sound program := ⟨rfl, State.sound_fresh program⟩
  have hsound : machine.Sound program := by
    rw [← hmachine]
    exact operate_induction history (fun operation _ _ h => h.apply hsize operation) hfresh
  refine ⟨hsound.program_eq, hsound.state.size_eq, hsound.state.last_eq, ?_,
    hsound.state.logged_le, ?_, fun hhalted => ?_, fun before after limit heq hkeep hle => ?_⟩
  · rw [hsound.state.last_eq]
    simp
  · have hlt := hsound.state.ip_lt
    omega
  · exact ⟨hsound.state.decode_eq hhalted, (Steps.halted hhalted).step_eq⟩
  · have hset : ((({ program } : Machine).operate before).apply (.setLimit limit)).Within limit :=
      ⟨rfl, hle⟩
    have hwithin : machine.Within limit := by
      rw [← hmachine, heq, operate_append]
      refine operate_induction after (fun operation hmem _ h => h.apply fun other => ?_) hset
      rintro rfl
      exact hkeep other hmem
    exact ⟨hwithin.limit_eq, hwithin.steps_le⟩

/-- A program that rewrites itself: it stores a value of the inlet over its second instruction,
which is then the halt. -/
def selfHalting : Program := ⟨[3, 2, 0]⟩

/-- The machine starves, is given a value and a limit, and is stepped until the limit or the halt
stops it. -/
theorem sound_after_operations_selfHalting :
    ∃ machine, ({ program := selfHalting } : Machine).operate
        [.run 5, .setInput (.queue [99]), .setLimit 2, .step, .step, .step] = machine ∧
      machine.state.halted = true ∧
      machine.state.memory.decode 2 = .ok .halt ∧
      machine.step = (machine, .stopped .halted) ∧
      machine.limit = some 2 ∧ machine.state.steps ≤ 2 := by
  refine ⟨_, rfl, ?_⟩
  obtain ⟨-, -, -, -, -, -, hhalted, hlimit⟩ := sound_after_operations selfHalting (by decide)
    [.run 5, .setInput (.queue [99]), .setLimit 2, .step, .step, .step] rfl
  have hend : (({ program := selfHalting } : Machine).operate
      [.run 5, .setInput (.queue [99]), .setLimit 2, .step, .step, .step]).state.halted = true := by
    decide
  obtain ⟨hdecode, hstep⟩ := hhalted hend
  exact ⟨hend, hdecode, hstep, hlimit [.run 5, .setInput (.queue [99])] [.step, .step, .step] 2 rfl
    (by simp) (by decide)⟩

end Machine

end Intcode
