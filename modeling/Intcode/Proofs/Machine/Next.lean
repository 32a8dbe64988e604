import Intcode.Machine.State

/-!
# What the instruction at the pointer asks for

`State.next` does what `decode` does and as much of `execute` as concerns the state alone, in one
go, with a dozen places where it can fault. `State.Asks` lists what it can give, one case for each
way an instruction can go, and the fault is always one of the program's own. So later files take
`next` apart by cases on `Asks` and need neither `Memory.decode` nor `State.evaluate`.

`Yields P Q` says of a computation that a value it gives satisfies `P` and a fault it raises
satisfies `Q`. It passes through `do` blocks (`Yields.bind`), so both halves come out of one walk
through each definition.

Results:
* `yields_decode`: a decoded instruction lies inside memory.
* **`yields_next`**: what `next` gives is one of the cases of `Asks`, and what it raises is not a
  hang-up.
* `Asks.next_eq`: the converse for what it gives.
-/

namespace Intcode

/-! ## Computations that can fault -/

/-- A value that the computation gives satisfies `P`, a fault that it raises satisfies `Q`. -/
def Yields {α : Type} (P : α → Prop) (Q : Fault → Prop) : Except Fault α → Prop
  | .ok value => P value
  | .error fault => Q fault

namespace Yields

variable {α β : Type} {P : α → Prop} {R : β → Prop} {Q : Fault → Prop} {x : Except Fault α}

/-- One computation after another. -/
theorem bind (hx : Yields P Q x) {f : α → Except Fault β}
    (hf : ∀ value, P value → Yields R Q (f value)) : Yields R Q (x >>= f) := by
  cases x with
  | ok value => exact hf value hx
  | error fault => exact hx

/-- The value that is given may be assumed to be given. -/
theorem and_eq (hx : Yields P Q x) : Yields (fun value => x = .ok value ∧ P value) Q x := by
  cases x with
  | ok value => exact ⟨rfl, hx⟩
  | error fault => exact hx

theorem of_ok (hx : Yields P Q x) {value : α} (h : x = .ok value) : P value := by
  rw [h] at hx
  exact hx

theorem of_error (hx : Yields P Q x) {fault : Fault} (h : x = .error fault) : Q fault := by
  rw [h] at hx
  exact hx

end Yields

/-- The fault is one of the program's own and not a neighbour's hang-up. -/
def Fault.IsRoot (fault : Fault) : Prop := fault.isDisconnect = false

theorem Fault.not_isRoot_inputClosed (ip : Nat) : ¬ (inputClosed ip).IsRoot := by
  simp [IsRoot, isDisconnect]

theorem Fault.not_isRoot_outputClosed (ip : Nat) : ¬ (outputClosed ip).IsRoot := by
  simp [IsRoot, isDisconnect]

/-! ## Decoding -/

namespace Memory

theorem yields_fetch (memory : Memory) (ip address : Nat) :
    Yields (fun _ => address < memory.size) Fault.IsRoot (memory.fetch ip address) := by
  unfold fetch
  cases h : memory.get? address with
  | none => exact rfl
  | some word => exact (Array.getElem?_eq_some_iff.mp h).1

end Memory

theorem Opcode.yields_ofWord (ip : Nat) (word : Word) :
    Yields (fun _ => True) Fault.IsRoot (ofWord ip word) := by
  simp only [ofWord]
  cases (if 0 ≤ word.val then ofCode? (word.val.tmod 100) else none) with
  | none => exact rfl
  | some opcode => trivial

theorem Opcode.yields_modeOf (ip : Nat) (opcode : Opcode) (word : Word) (param : Nat) :
    Yields (fun _ => True) Fault.IsRoot (opcode.modeOf ip word param) := by
  unfold modeOf
  split
  · trivial
  · exact rfl

/-- **A decoded instruction lies inside memory.** -/
theorem Memory.yields_decode (memory : Memory) (ip : Nat) :
    Yields (fun instruction => ip + instruction.length ≤ memory.size) Fault.IsRoot
      (memory.decode ip) := by
  unfold decode
  refine (memory.yields_fetch ip ip).bind fun word hip => ?_
  refine (Opcode.yields_ofWord ip word).bind fun opcode _ => ?_
  have mode := Opcode.yields_modeOf ip opcode word
  have operand := fun param => memory.yields_fetch ip (ip + param)
  cases opcode with
  | compute operator =>
    refine (mode 1).bind fun _ _ => (mode 2).bind fun _ _ => (mode 3).bind fun _ _ => ?_
    exact (operand 1).bind fun _ _ => (operand 2).bind fun _ _ => (operand 3).bind fun _ h => h
  | input => exact (mode 1).bind fun _ _ => (operand 1).bind fun _ h => h
  | output => exact (mode 1).bind fun _ _ => (operand 1).bind fun _ h => h
  | jump ifNonzero =>
    refine (mode 1).bind fun _ _ => (mode 2).bind fun _ _ => ?_
    exact (operand 1).bind fun _ _ => (operand 2).bind fun _ h => h
  | halt => exact hip

/-! ## Evaluating -/

namespace State

theorem yields_read (state : State) (operand : Operand) :
    Yields (fun _ => True) Fault.IsRoot (state.read operand) := by
  unfold read
  cases operand.mode with
  | immediate => trivial
  | position =>
    cases state.memory.load? operand.value with
    | none => exact rfl
    | some value => trivial

theorem yields_destination (state : State) (address : Word) :
    Yields (fun _ => True) Fault.IsRoot (state.destination address) := by
  unfold destination
  cases state.memory.index? address with
  | none => exact rfl
  | some index => trivial

theorem destination_eq_ok_iff {state : State} {address : Word} {index : Nat} :
    state.destination address = .ok index ↔ state.memory.index? address = some index := by
  unfold destination
  cases state.memory.index? address <;> simp

theorem destination_eq_error_iff {state : State} {address : Word} {fault : Fault} :
    state.destination address = .error fault ↔
      state.memory.index? address = none ∧ fault = state.outOfRange address := by
  unfold destination
  cases state.memory.index? address <;> simp [eq_comm]

/-- A jump goes to an address that a word holds. -/
theorem yields_target (state : State) (operand : Operand) :
    Yields (fun ip : Nat => (ip : Int) < Word.bound) Fault.IsRoot (state.target operand) := by
  unfold target
  refine (state.yields_read operand).bind fun address _ => ?_
  unfold Word.toAddress?
  by_cases h : 0 ≤ address.val
  · rw [if_pos h]
    have hlt := address.lt_bound
    show (address.val.toNat : Int) < Word.bound
    omega
  · rw [if_neg h]
    exact rfl

/-- **Everything the instruction at the pointer can ask for**, with its conditions. -/
inductive Asks (state : State) : Instruction → Action → Prop where
  | compute {operator : Operator} {a b : Operand} {dest x y value : Word} {index : Nat}
      (hdecode : state.memory.decode state.ip = .ok (.compute operator a b dest))
      (ha : state.read a = .ok x) (hb : state.read b = .ok y)
      (hvalue : operator.apply? x y = some value) (hdest : state.destination dest = .ok index) :
      Asks state (.compute operator a b dest)
        (.internal { ip := state.behind (.compute operator), write := some (index, value) })
  | input {dest : Word} (hdecode : state.memory.decode state.ip = .ok (.input dest)) :
      Asks state (.input dest) (.receive dest)
  | output {operand : Operand} {value : Word}
      (hdecode : state.memory.decode state.ip = .ok (.output operand))
      (hread : state.read operand = .ok value) : Asks state (.output operand) (.send value)
  /-- A jump that is taken. -/
  | jump {ifNonzero : Bool} {condition target : Operand} {value : Word} {ip : Nat}
      (hdecode : state.memory.decode state.ip = .ok (.jump ifNonzero condition target))
      (hread : state.read condition = .ok value) (htaken : decide (value ≠ 0) = ifNonzero)
      (htarget : state.target target = .ok ip) :
      Asks state (.jump ifNonzero condition target) (.internal { ip })
  /-- A jump that is not taken; its target is not looked at. -/
  | skip {ifNonzero : Bool} {condition target : Operand} {value : Word}
      (hdecode : state.memory.decode state.ip = .ok (.jump ifNonzero condition target))
      (hread : state.read condition = .ok value) (htaken : decide (value ≠ 0) ≠ ifNonzero) :
      Asks state (.jump ifNonzero condition target)
        (.internal { ip := state.behind (.jump ifNonzero) })
  | halt (hdecode : state.memory.decode state.ip = .ok .halt) :
      Asks state .halt (.internal { ip := state.ip, halted := true })

theorem yields_evaluate {state : State} {instruction : Instruction}
    (hdecode : state.memory.decode state.ip = .ok instruction) :
    Yields (Asks state instruction) Fault.IsRoot (state.evaluate instruction) := by
  unfold evaluate
  cases instruction with
  | compute operator a b dest =>
    refine (state.yields_read a).and_eq.bind fun x hx => ?_
    refine (state.yields_read b).and_eq.bind fun y hy => ?_
    cases hvalue : operator.apply? x y with
    | none => exact rfl
    | some value =>
      refine (state.yields_destination dest).and_eq.bind fun index hindex => ?_
      exact .compute hdecode hx.1 hy.1 hvalue hindex.1
  | input dest => exact .input hdecode
  | output operand =>
    exact (state.yields_read operand).and_eq.bind fun value hvalue => .output hdecode hvalue.1
  | jump ifNonzero condition target =>
    refine (state.yields_read condition).and_eq.bind fun value hvalue => ?_
    by_cases htaken : decide (value ≠ 0) = ifNonzero
    · rw [if_pos htaken]
      exact (state.yields_target target).and_eq.bind fun ip hip =>
        .jump hdecode hvalue.1 htaken hip.1
    · rw [if_neg htaken]
      exact .skip hdecode hvalue.1 htaken
  | halt => exact .halt hdecode

/-- **What `next` gives is one of the cases of `Asks`, and what it raises is not a hang-up.** -/
theorem yields_next (state : State) :
    Yields (fun asked => Asks state asked.1 asked.2) Fault.IsRoot state.next := by
  unfold next
  refine (state.memory.yields_decode state.ip).and_eq.bind fun instruction hdecode => ?_
  exact (yields_evaluate hdecode.1).bind fun action haction => haction

theorem Asks.decode_eq {state : State} {instruction : Instruction} {action : Action}
    (h : Asks state instruction action) : state.memory.decode state.ip = .ok instruction := by
  cases h <;> assumption

/-- The decoded instruction lies inside memory, whatever it asks for. -/
theorem Asks.behind_le {state : State} {instruction : Instruction} {action : Action}
    (h : Asks state instruction action) : state.behind instruction.opcode ≤ state.memory.size :=
  (state.memory.yields_decode state.ip).of_ok h.decode_eq

/-- **What meets the conditions of a case of `Asks` is what `next` gives.** -/
theorem Asks.next_eq {state : State} {instruction : Instruction} {action : Action}
    (h : Asks state instruction action) : state.next = .ok (instruction, action) := by
  have hevaluate : state.evaluate instruction = .ok action := by
    unfold evaluate
    cases h with
    | compute _ ha hb hvalue hdest =>
      simp only [ha, hb, hvalue, hdest, bind, Except.bind]
      rfl
    | output _ hread =>
      simp only [hread, bind, Except.bind]
      rfl
    | jump _ hread htaken htarget =>
      simp only [hread, htaken, htarget, bind, Except.bind, if_true]
      rfl
    | skip _ hread htaken =>
      simp only [hread, htaken, bind, Except.bind, if_false]
      rfl
    | input | halt => rfl
  unfold next
  rw [h.decode_eq]
  exact congrArg (Except.map (Prod.mk instruction)) hevaluate

end State

end Intcode
