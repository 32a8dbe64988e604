import Intcode.Proofs.Machine.Runs

/-!
# More memory than a run needs

A machine looks at the size of its memory only to see whether an address lies inside. So a run
that never leaves its memory does not notice cells appended behind it: it takes the same course,
and leaves them as they are. This holds whatever the program makes of itself while it runs, since
the argument is about the cells that are looked at and not about the program.

`Persists x y` says of two computations that the second does what the first does, unless the first
left its memory. It passes through `do` blocks, so each definition between a fetch and a step needs
one walk.

Results:
* `Memory.persists_decode`, `State.persists_next`: what the instruction at the pointer asks for does
  not depend on appended cells.
* `step_extend`: nor does a step.
* `Runs.extend`: nor does a run, which leaves the cells as they are.
* **`appended_cells_are_inert`**: the same for every program and every list of cells.
-/

namespace Intcode

/-- An address was not in memory. -/
def Fault.IsRange (fault : Fault) : Prop :=
  ∃ ip address size, fault = .addressOutOfRange ip address size

/-! ## Computations in a larger memory -/

/-- The second computation does what the first does, unless the first left its memory. -/
def Persists {α : Type} (x y : Except Fault α) : Prop :=
  x = y ∨ ∃ fault, x = .error fault ∧ fault.IsRange

namespace Persists

variable {α β : Type} {x y : Except Fault α}

theorem refl (x : Except Fault α) : Persists x x := .inl rfl

theorem leaves (y : Except Fault α) (ip : Nat) (address : Word) (size : Nat) :
    Persists (.error (.addressOutOfRange ip address size)) y :=
  .inr ⟨_, rfl, ip, address, size, rfl⟩

/-- One computation after another. -/
theorem bind (h : Persists x y) {f g : α → Except Fault β}
    (hf : ∀ value, Persists (f value) (g value)) : Persists (x >>= f) (y >>= g) := by
  rcases h with rfl | ⟨fault, rfl, hrange⟩
  · cases x with
    | ok value => exact hf value
    | error fault => exact .refl _
  · exact .inr ⟨fault, rfl, hrange⟩

theorem of_ok (h : Persists x y) {value : α} (hx : x = .ok value) : y = .ok value := by
  rcases h with rfl | ⟨fault, hfault, -⟩
  · exact hx
  · rw [hx] at hfault
    cases hfault

theorem of_error (h : Persists x y) {fault : Fault} (hx : x = .error fault)
    (hrange : ¬ fault.IsRange) : y = .error fault := by
  rcases h with rfl | ⟨other, hother, hother'⟩
  · exact hx
  · rw [hx] at hother
    cases hother
    exact absurd hother' hrange

end Persists

/-! ## Memory -/

namespace Memory

/-- The memory with cells appended. -/
def extend (memory : Memory) (extra : List Word) : Memory := ⟨memory.cells ++ extra.toArray⟩

variable {memory : Memory} {extra : List Word}

theorem size_extend (memory : Memory) (extra : List Word) :
    (memory.extend extra).size = memory.size + extra.length := by
  simp [extend, size]

theorem get?_extend {index : Nat} (h : index < memory.size) (extra : List Word) :
    (memory.extend extra).get? index = memory.get? index :=
  Array.getElem?_append_left h

theorem index?_extend {address : Word} {index : Nat} (h : memory.index? address = some index)
    (extra : List Word) : (memory.extend extra).index? address = some index := by
  simp only [index?, Option.filter_eq_some_iff, decide_eq_true_eq, size_extend] at h ⊢
  exact ⟨h.1, by omega⟩

theorem load?_extend {address value : Word} (h : memory.load? address = some value)
    (extra : List Word) : (memory.extend extra).load? address = some value := by
  obtain ⟨index, hindex, hget⟩ := Option.bind_eq_some_iff.mp h
  have hlt : index < memory.size := (Array.getElem?_eq_some_iff.mp hget).1
  rw [load?, index?_extend hindex, Option.bind_some, get?_extend hlt, hget]

theorem set_extend {index : Nat} (h : index < memory.size) (value : Word) (extra : List Word) :
    (memory.extend extra).set index value = (memory.set index value).extend extra := by
  unfold set extend
  rw [Array.setIfInBounds_append_left h]

theorem ofProgram_extend (words extra : List Word) :
    ofProgram ⟨words ++ extra⟩ = (ofProgram ⟨words⟩).extend extra := by
  simp [ofProgram, extend]

theorem persists_fetch (memory : Memory) (extra : List Word) (ip address : Nat) :
    Persists (memory.fetch ip address) ((memory.extend extra).fetch ip address) := by
  unfold fetch
  cases h : memory.get? address with
  | none => exact .leaves _ _ _ _
  | some word =>
    rw [get?_extend (Array.getElem?_eq_some_iff.mp h).1, h]
    exact .refl _

/-- **What is decoded does not depend on appended cells.** -/
theorem persists_decode (memory : Memory) (extra : List Word) (ip : Nat) :
    Persists (memory.decode ip) ((memory.extend extra).decode ip) := by
  unfold decode
  refine (memory.persists_fetch extra ip ip).bind fun word => ?_
  refine (Persists.refl (Opcode.ofWord ip word)).bind fun opcode => ?_
  have mode := fun param => Persists.refl (opcode.modeOf ip word param)
  have operand := fun param => memory.persists_fetch extra ip (ip + param)
  cases opcode with
  | compute operator =>
    refine (mode 1).bind fun _ => (mode 2).bind fun _ => (mode 3).bind fun _ => ?_
    exact (operand 1).bind fun _ => (operand 2).bind fun _ => (operand 3).bind fun _ => .refl _
  | input => exact (mode 1).bind fun _ => (operand 1).bind fun _ => .refl _
  | output => exact (mode 1).bind fun _ => (operand 1).bind fun _ => .refl _
  | jump ifNonzero =>
    refine (mode 1).bind fun _ => (mode 2).bind fun _ => ?_
    exact (operand 1).bind fun _ => (operand 2).bind fun _ => .refl _
  | halt => exact .refl _

end Memory

/-! ## States -/

namespace State

/-- The state with cells appended to its memory. -/
def extend (state : State) (extra : List Word) : State :=
  { state with memory := state.memory.extend extra }

variable {state : State} {extra : List Word}

theorem persists_read (state : State) (extra : List Word) (operand : Operand) :
    Persists (state.read operand) ((state.extend extra).read operand) := by
  unfold read
  cases operand.mode with
  | immediate => exact .refl _
  | position =>
    cases h : state.memory.load? operand.value with
    | none => exact .leaves _ _ _ _
    | some value =>
      rw [extend, Memory.load?_extend h]
      exact .refl _

theorem persists_destination (state : State) (extra : List Word) (address : Word) :
    Persists (state.destination address) ((state.extend extra).destination address) := by
  unfold destination
  cases h : state.memory.index? address with
  | none => exact .leaves _ _ _ _
  | some index =>
    rw [extend, Memory.index?_extend h]
    exact .refl _

theorem persists_target (state : State) (extra : List Word) (operand : Operand) :
    Persists (state.target operand) ((state.extend extra).target operand) := by
  unfold target
  refine (state.persists_read extra operand).bind fun address => ?_
  cases address.toAddress? with
  | none => exact .leaves _ _ _ _
  | some ip => exact .refl _

theorem persists_evaluate (state : State) (extra : List Word) (instruction : Instruction) :
    Persists (state.evaluate instruction) ((state.extend extra).evaluate instruction) := by
  have operand := state.persists_read extra
  unfold evaluate
  cases instruction with
  | compute operator a b dest =>
    refine (operand a).bind fun x => (operand b).bind fun y => ?_
    cases operator.apply? x y with
    | none => exact .refl _
    | some value => exact (state.persists_destination extra dest).bind fun _ => .refl _
  | input dest => exact .refl _
  | output value => exact (operand value).bind fun _ => .refl _
  | jump ifNonzero condition target =>
    refine (operand condition).bind fun value => ?_
    by_cases htaken : decide (value ≠ 0) = ifNonzero
    · rw [if_pos htaken, if_pos htaken]
      exact (state.persists_target extra target).bind fun _ => .refl _
    · rw [if_neg htaken, if_neg htaken]
      exact .refl _
  | halt => exact .refl _

/-- **What the instruction at the pointer asks for does not depend on appended cells.** -/
theorem persists_next (state : State) (extra : List Word) :
    Persists state.next (state.extend extra).next := by
  unfold next
  refine (state.memory.persists_decode extra state.ip).bind fun instruction => ?_
  exact (state.persists_evaluate extra instruction).bind fun _ => .refl _

/-- A destination that cannot be found is out of range. -/
theorem isRange_of_destination {address : Word} {fault : Fault}
    (h : state.destination address = .error fault) : fault.IsRange :=
  ⟨_, _, _, (destination_eq_error_iff.mp h).2⟩

theorem lt_size_of_destination {address : Word} {index : Nat}
    (h : state.destination address = .ok index) : index < state.memory.size := by
  simpa using (Option.filter_eq_some_iff.mp (destination_eq_ok_iff.mp h)).2

theorem received_extend {index : Nat} (h : index < state.memory.size) (value : Word)
    (extra : List Word) :
    (state.extend extra).received index value = (state.received index value).extend extra := by
  simp only [extend, received, Memory.set_extend h, behind]

/-- An effect that an instruction has stays inside memory. -/
theorem perform_extend {instruction : Instruction} {effect : Effect}
    (h : state.next = .ok (instruction, .internal effect)) (extra : List Word) :
    (state.extend extra).perform effect = (state.perform effect).extend extra := by
  cases state.yields_next.of_ok h with
  | compute _ _ _ _ hdest =>
    simp only [extend, perform, Memory.write, Memory.set_extend (lt_size_of_destination hdest)]
  | jump | skip | halt => rfl

end State

/-! ## Machines -/

namespace Machine

/-- The machine with cells appended to its program and to its memory. -/
def extend (machine : Machine) (extra : List Word) : Machine :=
  { machine with
    program := ⟨machine.program.words ++ extra⟩
    state := machine.state.extend extra }

variable {machine after : Machine} {outcome : Outcome} {ending : Ending (Option Word)}

theorem reset_extend (machine : Machine) (extra : List Word) :
    (machine.extend extra).reset = machine.reset.extend extra := by
  simp only [reset, extend, State.fresh, State.extend, Memory.ofProgram_extend]

/-- **A step does not depend on appended cells**, unless it leaves memory. -/
theorem step_extend (h : machine.step = (after, outcome))
    (hrange : ∀ fault, outcome = .stopped (.faulted fault) → ¬ fault.IsRange) (extra : List Word) :
    (machine.extend extra).step = (after.extend extra, outcome) := by
  have hkeep := machine.state.persists_next extra
  rw [step_eq_iff] at h ⊢
  cases h with
  | halted hhalted => exact .halted hhalted
  | exhausted hrun hlimit => exact .exhausted hrun hlimit
  | crash hrun hlimit hnext =>
    exact .crash hrun hlimit (hkeep.of_error hnext (hrange _ rfl))
  | @internal instruction effect hrun hlimit hnext =>
    show Steps _ { machine.extend extra with
      state := (machine.state.perform effect).extend extra } _
    rw [← State.perform_extend hnext]
    exact .internal hrun hlimit (hkeep.of_ok hnext)
  | @receive instruction dest value rest index hrun hlimit hnext hpull hdest =>
    have hdest' := (machine.state.persists_destination extra dest).of_ok hdest
    show Steps _ { machine.extend extra with
      input := rest, state := (machine.state.received index value).extend extra } _
    rw [← State.received_extend (State.lt_size_of_destination hdest)]
    exact .receive hrun hlimit (hkeep.of_ok hnext) hpull hdest'
  | misplace hrun hlimit hnext hpull hdest =>
    exact absurd (State.isRange_of_destination hdest) (hrange _ rfl)
  | starve hrun hlimit hnext hpull => exact .starve hrun hlimit (hkeep.of_ok hnext) hpull
  | wait hrun hlimit hnext hpull => exact .wait hrun hlimit (hkeep.of_ok hnext) hpull
  | send hrun hlimit hnext hpush => exact .send hrun hlimit (hkeep.of_ok hnext) hpush
  | refuse hrun hlimit hnext hpush => exact .refuse hrun hlimit (hkeep.of_ok hnext) hpush
  | block hrun hlimit hnext hpush => exact .block hrun hlimit (hkeep.of_ok hnext) hpush

/-- **A run that does not leave its memory takes the same course with cells appended**, and leaves
them as they are. -/
theorem Runs.extend (h : machine.Runs after ending)
    (hrange : ∀ fault, ending = .faulted fault → ¬ fault.IsRange) (extra : List Word) :
    (machine.extend extra).Runs (after.extend extra) ending := by
  refine h.map (f := fun machine => machine.extend extra) (machine.reset_extend extra) rfl
    fun hstep hstop => ?_
  refine step_extend hstep (fun fault heq => ?_) extra
  exact hrange fault (hstop _ heq).symm

/-- **Appended cells are inert.** Take any program, and append any cells to it; take any inlet,
outlet and limit. If the run of the program ends, and not because an address is out of range, then
the run of the longer program ends in the same way, with the same result or fault: inlet, outlet
and state are the same at the end, only that memory has the appended cells, unchanged, behind
those of the shorter run. -/
theorem appended_cells_are_inert (words extra : List Word) (input : Inlet) (output : Outlet)
    (limit : Option Nat) (state : State) {after : Machine} {ending : Ending (Option Word)} :
    let on (words : List Word) : Machine := { program := ⟨words⟩, input, output, limit, state }
    (on words).Runs after ending →
    (∀ ip address size, ending ≠ .faulted (.addressOutOfRange ip address size)) →
    ∃ longer, (on (words ++ extra)).Runs longer ending ∧
      longer.state =
        { after.state with memory := ⟨after.state.memory.cells ++ extra.toArray⟩ } ∧
      longer.input = after.input ∧ longer.output = after.output := by
  intro on hruns hrange
  have hfault : ∀ fault, ending = .faulted fault → ¬ fault.IsRange := by
    rintro fault hending ⟨ip, address, size, rfl⟩
    exact hrange ip address size hending
  have hlonger := hruns.extend hfault extra
  -- the two machines differ in the state they are in before their runs, which a run forgets
  rw [runs_iff_resumes] at hlonger
  exact ⟨after.extend extra, runs_iff_resumes.mpr hlonger, rfl, rfl, rfl⟩

/-- A program that stores a value of the inlet over its last cell, and then comes to that cell. -/
def overwriting : List Word := [3, 2, 0]

/-- Given a halt, the program halts, and so it does with cells appended that are no instructions.
Given a word that is no instruction it faults there, also with a halt appended. -/
theorem appended_cells_are_inert_overwriting :
    (∃ longer, ({ program := ⟨overwriting ++ [50, 7]⟩, input := .queue [99, 1] } : Machine).Runs
        longer (.finished none) ∧ longer.state.memory = ⟨#[3, 2, 99, 50, 7]⟩ ∧
      longer.input = .queue [1]) ∧
    ∃ longer, ({ program := ⟨overwriting ++ [99]⟩, input := .queue [50] } : Machine).Runs
        longer (.faulted (.unknownOpcode 2 50 50)) ∧ longer.state.memory = ⟨#[3, 2, 50, 99]⟩ := by
  have hhalts : ({ program := ⟨overwriting⟩, input := .queue [99, 1] } : Machine).Runs
      (({ program := ⟨overwriting⟩, input := .queue [99, 1] } : Machine).run 3).1
      (.finished none) := ⟨nofun, 3, rfl⟩
  have hfaults : ({ program := ⟨overwriting⟩, input := .queue [50] } : Machine).Runs
      (({ program := ⟨overwriting⟩, input := .queue [50] } : Machine).run 2).1
      (.faulted (.unknownOpcode 2 50 50)) := ⟨nofun, 2, rfl⟩
  constructor
  · obtain ⟨longer, hruns, hstate, hinput, -⟩ := appended_cells_are_inert overwriting [50, 7]
      (.queue [99, 1]) .discard none (.fresh ⟨overwriting⟩) hhalts (by simp)
    exact ⟨longer, hruns, by rw [hstate]; rfl, hinput⟩
  · obtain ⟨longer, hruns, hstate, -⟩ := appended_cells_are_inert overwriting [99]
      (.queue [50]) .discard none (.fresh ⟨overwriting⟩) hfaults (by simp)
    exact ⟨longer, hruns, by rw [hstate]; rfl⟩

end Machine

end Intcode
