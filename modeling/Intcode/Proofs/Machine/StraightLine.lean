import Intcode.Proofs.Instruction.Encoding
import Intcode.Proofs.Machine.Advance
import Intcode.Proofs.Machine.Trace
import Intcode.Proofs.Program.Listing

/-!
# Straight-line code runs as it is listed

`disassemble` walks over the program as it was written, `Machine::run` over a memory that it
overwrites as it goes. As long as no jump is taken and nothing is stored ahead of the pointer, the
two walk in step: the cells from the pointer on are still those of the program, an instruction is
decoded from these cells alone, and both go on by its length.

`GoesStraight` says of a step that it keeps the two together. It is asked of all executed
instructions but the last, since nothing has to be read after that one.

Results:
* `memory_of_executed`: an executed instruction overwrites at most the cell that it stores into.
* `Memory.decode_of_drop_eq`: an instruction is decoded from the cells from its address on.
* `GoesStraight.drop_eq`: a step that goes straight on leaves the cells ahead of it alone.
* `trace_isPrefix_linesFrom`: a machine whose cells ahead are those of another memory executes what
  is listed there.
* **`straight_run_is_listed`**: the same for every program from its start.
-/

namespace Intcode

/-- The address that an instruction stores at, if it stores. -/
def Instruction.dest? : Instruction → Option Word
  | compute _ _ _ dest => some dest
  | input dest => some dest
  | output _ => none
  | jump .. => none
  | halt => none

/-! ## Stores -/

namespace State

/-- The cell that the instruction at the pointer stores into, if it stores. -/
def store? (state : State) : Option Nat :=
  match state.memory.decode state.ip with
  | .ok instruction => instruction.dest?.bind state.memory.index?
  | .error _ => none

variable {state : State} {instruction : Instruction}

theorem store?_eq {dest : Word} {index : Nat}
    (hdecode : state.memory.decode state.ip = .ok instruction)
    (hdest : instruction.dest? = some dest) (hindex : state.destination dest = .ok index) :
    state.store? = some index := by
  unfold store?
  simp only [hdecode, hdest, Option.bind_some, destination_eq_ok_iff.mp hindex]

end State

namespace Machine

variable {machine after : Machine} {instruction : Instruction}

/-- **An executed instruction overwrites at most the cell that it stores into.** -/
theorem memory_of_executed (h : machine.step = (after, .executed instruction)) :
    after.state.memory = machine.state.memory ∨
      ∃ index value, machine.state.store? = some index ∧
        after.state.memory = machine.state.memory.set index value := by
  have hnext := machine.state.yields_next
  cases step_eq_iff.mp h with
  | internal _ _ hasks =>
    cases hnext.of_ok hasks with
    | compute hdecode _ _ _ hdest => exact .inr ⟨_, _, State.store?_eq hdecode rfl hdest, rfl⟩
    | jump | skip | halt => exact .inl rfl
  | receive _ _ hasks _ hdest =>
    cases hnext.of_ok hasks with
    | input hdecode => exact .inr ⟨_, _, State.store?_eq hdecode rfl hdest, rfl⟩
  | send => exact .inl rfl

end Machine

/-! ## The cells ahead -/

namespace Memory

variable {memory other : Memory} {address : Nat}

/-- What is stored below an address does not show from there on. -/
theorem drop_set {index : Nat} (h : index < address) (value : Word) :
    (memory.set index value).cells.toList.drop address = memory.cells.toList.drop address := by
  simp only [set, Array.toList_setIfInBounds]
  exact List.drop_set_of_lt h

/-- **An instruction is decoded from the cells from its address on.** -/
theorem decode_of_drop_eq {instruction : Instruction} (h : memory.decode address = .ok instruction)
    (hdrop : memory.cells.toList.drop address = other.cells.toList.drop address) :
    other.decode address = .ok instruction := by
  rw [decode_eq_ok_iff] at h ⊢
  rwa [← hdrop]

/-- Where an instruction decodes, its line comes first in the listing and the others follow behind
it. -/
theorem linesFrom_of_decode {instruction : Instruction}
    (h : memory.decode address = .ok instruction) :
    ∃ line, memory.linesFrom address = line :: memory.linesFrom (address + instruction.length) ∧
      line.address = address ∧ line.text = instruction.text := by
  have hinside : address < memory.size := by
    have hend := (memory.yields_decode address).of_ok h
    have hpos := instruction.length_pos
    omega
  have hstride : memory.stride address = instruction.length := by
    simp only [stride, h]
  refine ⟨memory.lineAt address, ?_, memory.address_lineAt address, ?_⟩
  · rw [linesFrom, if_pos hinside, hstride]
  · exact ((memory.yields_lineAt hinside).of_ok h).1

end Memory

/-! ## Straight steps -/

namespace Machine

/-- **The next step goes straight on**: no jump is taken, and what is stored is stored below the
address at which the machine goes on. -/
structure GoesStraight (machine : Machine) : Prop where
  jump_eq : machine.state.jump? = none
  store_lt : ∀ index, machine.state.store? = some index → index < machine.step.1.state.ip

variable {machine after : Machine} {instruction : Instruction}

theorem GoesStraight.ip_eq (hstraight : machine.GoesStraight)
    (h : machine.step = (after, .executed instruction)) (hne : instruction ≠ .halt) :
    after.state.ip = machine.state.ip + instruction.length := by
  rw [ip_of_executed h hne, hstraight.jump_eq]
  rfl

/-- **A step that goes straight on leaves the cells ahead of it alone.** -/
theorem GoesStraight.drop_eq (hstraight : machine.GoesStraight)
    (h : machine.step = (after, .executed instruction)) :
    after.state.memory.cells.toList.drop after.state.ip =
      machine.state.memory.cells.toList.drop after.state.ip := by
  rcases memory_of_executed h with hsame | ⟨index, value, hstore, hset⟩
  · rw [hsame]
  · have hlt := hstraight.store_lt index hstore
    rw [h] at hlt
    rw [hset]
    exact Memory.drop_set hlt value

/-- A halted machine executes nothing. -/
theorem trace_of_halted (h : machine.state.halted = true) (count : Nat) :
    (machine.trace count).2.1 = [] := by
  cases count with
  | zero => rfl
  | succ count => rw [trace_succ_of_stopped (Steps.halted h).step_eq]

/-- **A machine whose cells ahead are those of another memory executes what is listed there**, as
long as it goes straight on. -/
theorem trace_isPrefix_linesFrom (machine : Machine) (memory : Memory) (count : Nat)
    (hahead : machine.state.memory.cells.toList.drop machine.state.ip =
      memory.cells.toList.drop machine.state.ip)
    (hstraight : ∀ (k : Nat) (before : Machine), k + 1 < (machine.trace count).2.1.length →
      machine.proceed k = (before, none) → before.GoesStraight) :
    (machine.trace count).2.1.map (fun line => (line.1, line.2.text)) <+:
      (memory.linesFrom machine.state.ip).map fun line => (line.address, line.text) := by
  induction count generalizing machine with
  | zero => exact List.nil_prefix
  | succ count ih =>
    rcases hstep : machine.step with ⟨next, instruction | reason⟩
    · rw [trace_succ_of_executed hstep] at hstraight ⊢
      have hdecode := Memory.decode_of_drop_eq (decode_of_executed hstep) hahead
      obtain ⟨line, hlines, haddress, htext⟩ := Memory.linesFrom_of_decode hdecode
      rw [hlines, List.map_cons, List.map_cons, haddress, htext]
      refine List.cons_prefix_cons.mpr ⟨rfl, ?_⟩
      by_cases hlast : (next.trace count).2.1 = []
      · rw [hlast]
        exact List.nil_prefix
      · -- something is executed after this instruction, so it was to go straight on
        have hpos := List.length_pos_iff.mpr hlast
        have hgoes := hstraight 0 machine (Nat.succ_lt_succ hpos) rfl
        have hne : instruction ≠ .halt := fun hhalt =>
          hlast (trace_of_halted ((halted_of_executed hstep).mpr hhalt) count)
        have hip := hgoes.ip_eq hstep hne
        have hdrop := hgoes.drop_eq hstep
        rw [← hip]
        refine ih next ?_ fun k before hlt hproceed => ?_
        · rw [hdrop, hip, ← List.drop_drop, ← List.drop_drop, hahead]
        · refine hstraight (k + 1) before (Nat.succ_lt_succ hlt) ?_
          rw [proceed, hstep]
          exact hproceed
    · rw [trace_succ_of_stopped hstep]
      exact List.nil_prefix

/-! ## Main result -/

/-- **Straight-line code runs as it is listed.** Take any program, inlet, outlet and limit, and the
instructions that a run executes in up to `count` steps. If none of them but perhaps the last is a
jump that is taken, or stores at or behind the address of the instruction that follows it, then
their addresses and texts are those of the first lines of the listing. -/
theorem straight_run_is_listed (program : Program) (input : Inlet) (output : Outlet)
    (limit : Option Nat) (state : State) (count : Nat) :
    let machine : Machine := { program, input, output, limit, state }
    ∀ (after : Machine) (executed : List (Nat × Instruction)) (stop : Option Stop),
      machine.reset.trace count = (after, executed, stop) →
      (∀ (k : Nat) (before : Machine), k + 1 < executed.length →
        machine.reset.proceed k = (before, none) → before.GoesStraight) →
      executed.map (fun line => (line.1, line.2.text)) <+:
        program.listing.map fun line => (line.address, line.text) := by
  intro machine after executed stop htrace hstraight
  have hlisted := trace_isPrefix_linesFrom machine.reset (.ofProgram program) count rfl
    (by rwa [htrace])
  rwa [htrace] at hlisted

/-- A program that overwrites its first word with a sum, outputs it, and halts in front of a word
of data. -/
def erasing : Machine where
  program := ⟨[1101, 2, 3, 0, 4, 0, 99, 7]⟩

/-- The run reads the first three lines of the listing, although the first of them is gone when it
reads the second. -/
theorem straight_run_is_listed_erasing :
    (erasing.run 4).1.state.memory.get? 0 = some 5 ∧
      [(0, "add #2, #3, [0]"), (4, "out 0"), (6, "halt")] <+:
        erasing.program.listing.map fun line => (line.address, line.text) := by
  refine ⟨by decide, straight_run_is_listed erasing.program .absent .discard none erasing.state 4
    _ _ _ rfl fun k before hlt hbefore => ?_⟩
  rcases k with _ | _ | k
  · cases hbefore
    exact ⟨by decide, by decide⟩
  · cases hbefore
    exact ⟨by decide, by decide⟩
  · exact absurd hlt (by simp)

end Machine

end Intcode
