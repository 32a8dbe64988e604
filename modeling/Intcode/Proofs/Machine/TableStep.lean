import Intcode.Proofs.Machine.Table

/-!
# A step by the table

`Machine::step` decodes its instruction and executes it (`decode`, `execute`); here it is decoded
and evaluated, and the resulting action is applied. Each of these tests conditions of its own and
stops at the first that fails, so that one after the other they test the conditions of the table in
the table's order.

Results:
* `Names.decode_eq_outcome`, `Names.next_eq_outcome`: decoding tests the conditions on the
  parameters, and evaluating those of the operation after them.
* `execute_eq_row`: an instruction whose operation is known is executed as its row says.
* **`step_eq_table`**: a step of a machine is the step of the table.
-/

namespace Intcode.Table

/-! ## Decoding -/

/-- The instruction of an operation at the pointer. -/
def instruction (state : State) : Opcode → Instruction
  | .compute operator =>
    .compute operator (parameter state 1) (parameter state 2) (Word.reduce (raw state 3))
  | .input => .input (Word.reduce (raw state 1))
  | .output => .output (parameter state 1)
  | .jump ifNonzero => .jump ifNonzero (parameter state 1) (parameter state 2)
  | .halt => .halt

/-- There is an opcode word at the pointer, and it names this operation. -/
structure Names (state : State) (opcode : Opcode) : Prop where
  inMemory : (inMemory state state.ip).holds = true
  nonneg : 0 ≤ opword state
  code_eq : code state = opcode.code

/-- The codes that name an operation. -/
theorem codes_eq : [1, 2, 3, 4, 5, 6, 7, 8, 99] = Opcode.all.map Opcode.code := by decide

theorem exists_names {state : State} (hin : (inMemory state state.ip).holds = true)
    (hnamed : (named state).holds = true) : ∃ opcode, Names state opcode := by
  obtain ⟨hle, hmem⟩ := of_decide_eq_true hnamed
  rw [codes_eq] at hmem
  obtain ⟨opcode, -, hcode⟩ := List.mem_map.mp hmem
  exact ⟨opcode, hin, hle, hcode.symm⟩

namespace Names

variable {state : State} {opcode : Opcode}

theorem ofWord_eq (h : Names state opcode) :
    Opcode.ofWord state.ip (Word.reduce (opword state)) = .ok opcode := by
  have hcode : (opword state).tmod 100 = opcode.code := h.code_eq
  simp only [Opcode.ofWord, val_reduce_opword, if_pos h.nonneg, hcode, Opcode.ofCode?_code]

theorem modeOf_eq_outcome (h : Names state opcode) (k : Nat) :
    opcode.modeOf state.ip (Word.reduce (opword state)) k =
      outcome [moded state k] (parameter state k).mode := by
  have hdigit : Opcode.modeDigit (Word.reduce (opword state)) k = digit state k := by
    simp only [Opcode.modeDigit, digit, val_reduce_opword]
  unfold Opcode.modeOf Mode.ofDigit?
  rw [hdigit]
  by_cases hzero : digit state k = 0
  · rw [outcome_of_holds (by simp [moded, hzero])]
    simp [parameter, hzero, outcome]
  · by_cases hone : digit state k = 1
    · rw [outcome_of_holds (by simp [moded, hone])]
      simp [parameter, hone, outcome]
    · rw [outcome_of_fails (by simp [moded, hzero, hone]), if_neg hzero, if_neg hone, moded,
        h.code_eq]

/-- **Decoding tests the conditions on the parameters in order.** -/
theorem decode_eq_outcome (h : Names state opcode) :
    state.memory.decode state.ip =
      outcome (operandChecks state opcode.arity) (instruction state opcode) := by
  have mode := h.modeOf_eq_outcome
  have fetch := fetch_raw state
  unfold Memory.decode
  rw [fetch_opword state h.inMemory, ok_bind, h.ofWord_eq, ok_bind]
  cases opcode with
  | compute operator =>
    refine bind_eq_outcome_cons (mode 1) (bind_eq_outcome_cons (mode 2)
      (bind_eq_outcome_cons (mode 3) ?_))
    exact bind_eq_outcome_cons (fetch 1) (bind_eq_outcome_cons (fetch 2)
      (bind_eq_outcome_cons (fetch 3) rfl))
  | input => exact bind_eq_outcome_cons (mode 1) (bind_eq_outcome_cons (fetch 1) rfl)
  | output => exact bind_eq_outcome_cons (mode 1) (bind_eq_outcome_cons (fetch 1) rfl)
  | jump ifNonzero =>
    refine bind_eq_outcome_cons (mode 1) (bind_eq_outcome_cons (mode 2) ?_)
    exact bind_eq_outcome_cons (fetch 1) (bind_eq_outcome_cons (fetch 2) rfl)
  | halt => rfl

/-- Decoding and evaluating test the conditions one after the other. -/
theorem next_eq_outcome (h : Names state opcode) {conditions : List Check} {action : Action}
    (heval : state.evaluate (instruction state opcode) = outcome conditions action) :
    state.next = outcome (operandChecks state opcode.arity ++ conditions)
      (instruction state opcode, action) := by
  unfold State.next
  exact bind_eq_outcome h.decode_eq_outcome (bind_eq_outcome_last heval rfl)

end Names

/-! ## Evaluating -/

/-- An operator applied, as a computation. -/
def apply (state : State) (operator : Operator) (a b : Word) : Except Fault Word :=
  match operator.apply? a b with
  | some value => .ok value
  | none => .error (.overflow state.ip (Opcode.compute operator).code)

theorem evaluate_compute {state : State} {operator : Operator} {result : Int}
    {checked : List Check}
    (happly : apply state operator (Word.reduce (operand state 1)) (Word.reduce (operand state 2)) =
      outcome checked (Word.reduce result)) :
    state.evaluate (instruction state (.compute operator)) =
      outcome
        (readable state 1 :: readable state 2 :: (checked ++ [inMemory state (raw state 3)]))
        (.internal { ip := state.ip + 4
                     write := some ((raw state 3).toNat, Word.reduce result) }) := by
  refine bind_eq_outcome_cons (read_eq_outcome state 1) ?_
  refine bind_eq_outcome_cons (read_eq_outcome state 2) ?_
  have hstore : (apply state operator (Word.reduce (operand state 1))
      (Word.reduce (operand state 2)) >>= fun value => do
        let index ← state.destination (Word.reduce (raw state 3))
        return Action.internal { ip := state.ip + 4, write := some (index, value) }) =
      outcome (checked ++ [inMemory state (raw state 3)])
        (.internal { ip := state.ip + 4
                     write := some ((raw state 3).toNat, Word.reduce result) }) :=
    bind_eq_outcome happly (bind_eq_outcome_cons (destination_eq_outcome state 3) rfl)
  rw [← hstore]
  unfold apply
  cases operator.apply? (Word.reduce (operand state 1)) (Word.reduce (operand state 2)) with
  | none => rfl
  | some value => rfl

/-- A sum or product is tested, and then it is the integer one. -/
theorem apply_eq_outcome_fits {state : State} {operator : Operator} {result : Int}
    (hcode : code state = (Opcode.compute operator).code) {a b : Word}
    (happly : operator.apply? a b = Word.ofInt? result) :
    apply state operator a b = outcome [fits state result] (Word.reduce result) := by
  unfold apply
  rw [happly]
  unfold Word.ofInt?
  by_cases h : -Word.bound ≤ result ∧ result < Word.bound
  · rw [dif_pos h, outcome_of_holds (by simpa [fits] using h)]
    exact congrArg Except.ok (Word.ext (Word.val_reduce h.1 h.2).symm)
  · rw [dif_neg h, outcome_of_fails (by simpa [fits] using h), fits, hcode]

/-- A comparison needs no test. -/
theorem apply_eq_outcome_nil {state : State} {operator : Operator} {flag : Prop} [Decidable flag]
    {a b : Word} (happly : operator.apply? a b = some (Word.ofBool (decide flag))) :
    apply state operator a b = outcome [] (Word.reduce (if flag then 1 else 0)) := by
  unfold apply
  rw [happly]
  by_cases h : flag
  · simp only [h, decide_true, if_true]
    rfl
  · simp only [h, decide_false, if_false]
    rfl

theorem evaluate_output (state : State) :
    state.evaluate (instruction state .output) =
      outcome [readable state 1] (.send (Word.reduce (operand state 1))) :=
  bind_eq_outcome_cons (read_eq_outcome state 1) rfl

theorem reduce_operand_eq_iff (state : State) (j k : Nat) :
    Word.reduce (operand state j) = Word.reduce (operand state k) ↔
      operand state j = operand state k := by
  constructor
  · intro h
    rw [← val_reduce_operand state j, h, val_reduce_operand]
  · intro h
    rw [h]

theorem reduce_operand_eq_zero_iff (state : State) (k : Nat) :
    Word.reduce (operand state k) = 0 ↔ operand state k = 0 := by
  constructor
  · intro h
    rw [← val_reduce_operand state k, h]
    rfl
  · intro h
    rw [h]
    rfl

/-- A jump looks at its target only if it is taken. -/
theorem evaluate_jump (state : State) {ifNonzero taken : Bool}
    (htaken : taken = decide (decide (operand state 1 ≠ 0) = ifNonzero)) :
    state.evaluate (instruction state (.jump ifNonzero)) =
      outcome (readable state 1 :: if taken then [readable state 2, reachable state 2] else [])
        (.internal { ip := if taken then (operand state 2).toNat else state.ip + 3 }) := by
  refine bind_eq_outcome_cons (read_eq_outcome state 1) ?_
  have htest : (decide (Word.reduce (operand state 1) ≠ 0) = ifNonzero) ↔ taken = true := by
    rw [htaken, decide_eq_true_iff]
    simp only [ne_eq, reduce_operand_eq_zero_iff]
  cases taken with
  | true =>
    rw [if_pos (htest.mpr rfl)]
    exact bind_eq_outcome_last (target_eq_outcome state 2) rfl
  | false =>
    rw [if_neg fun h => absurd (htest.mp h) (by simp)]
    rfl

/-! ## Executing -/

section
variable {machine : Machine}

theorem resolve_of_holds {check : Check} {rest : List Check} (h : check.holds = true)
    (done : Machine × Outcome) :
    resolve machine (check :: rest) done = resolve machine rest done := by
  simp [resolve, h]

theorem resolve_of_fails {check : Check} {rest : List Check} (h : check.holds = false)
    (done : Machine × Outcome) :
    resolve machine (check :: rest) done =
      (if check.taken then { machine with input := machine.input.tail } else machine).faulted
        check.fault := by
  simp [resolve, h]

/-- The conditions that evaluating tests come first. -/
theorem execute_eq_resolve {conditions rest : List Check} {instruction : Instruction}
    {action : Action} {done : Machine × Outcome}
    (hnext : machine.state.next = outcome conditions (instruction, action))
    (htaken : ∀ check ∈ conditions, check.taken = false)
    (hact : machine.state.next = .ok (instruction, action) →
      machine.execute = resolve machine rest done) :
    machine.execute = resolve machine (conditions ++ rest) done := by
  unfold resolve
  rw [List.find?_append]
  cases hfind : conditions.find? fun check => !check.holds with
  | none =>
    have hok : machine.state.next = .ok (instruction, action) := by
      rw [hnext, outcome, hfind]
    exact hact hok
  | some check =>
    have herror : machine.state.next = .error check.fault := by
      rw [hnext, outcome, hfind]
    have hleft := htaken check (List.mem_of_find?_eq_some hfind)
    simp only [Machine.execute, herror, Option.some_or, hleft]
    rfl

/-- The same where nothing is received or sent. -/
theorem execute_eq_resolve_internal {conditions : List Check} {instruction : Instruction}
    {effect : Effect} {after : Machine}
    (hnext : machine.state.next = outcome conditions (instruction, .internal effect))
    (htaken : ∀ check ∈ conditions, check.taken = false)
    (hafter : { machine with state := machine.state.perform effect } = after) :
    machine.execute = resolve machine conditions (after, .executed instruction) := by
  have hexec : machine.execute =
      resolve machine (conditions ++ []) (after, .executed instruction) :=
    execute_eq_resolve hnext htaken fun hok => by
      simp only [Machine.execute, hok, hafter]
      rfl
  rwa [List.append_nil] at hexec

theorem taken_operandChecks (state : State) (count : Nat) :
    ∀ check ∈ operandChecks state count, check.taken = false := by
  intro check hcheck
  rcases List.mem_append.mp hcheck with hmode | hcell
  · obtain ⟨k, -, rfl⟩ := List.mem_map.mp hmode
    rfl
  · obtain ⟨k, -, rfl⟩ := List.mem_map.mp hcell
    rfl

theorem execute_computing {operator : Operator} {result : Int} {checked : List Check}
    (hnames : Names machine.state (.compute operator)) (hrun : machine.state.halted = false)
    (happly : apply machine.state operator (Word.reduce (operand machine.state 1))
      (Word.reduce (operand machine.state 2)) = outcome checked (Word.reduce result))
    (hchecked : ∀ check ∈ checked, check.taken = false) :
    machine.execute = (computing machine operator result checked).execute machine := by
  refine execute_eq_resolve_internal (hnames.next_eq_outcome (evaluate_compute happly)) ?_ ?_
  · refine List.forall_mem_append.mpr ⟨taken_operandChecks _ _, ?_⟩
    refine List.forall_mem_cons.mpr ⟨rfl, List.forall_mem_cons.mpr ⟨rfl, ?_⟩⟩
    exact List.forall_mem_append.mpr ⟨hchecked, List.forall_mem_singleton.mpr rfl⟩
  · simp only [computing, State.perform, goOn, stored, Memory.write, hrun]

theorem execute_jumping {ifNonzero taken : Bool} (hnames : Names machine.state (.jump ifNonzero))
    (hrun : machine.state.halted = false)
    (htaken : taken = decide (decide (operand machine.state 1 ≠ 0) = ifNonzero)) :
    machine.execute = (jumping machine ifNonzero taken).execute machine := by
  refine execute_eq_resolve_internal (hnames.next_eq_outcome (evaluate_jump _ htaken)) ?_ ?_
  · refine List.forall_mem_append.mpr ⟨taken_operandChecks _ _, ?_⟩
    refine List.forall_mem_cons.mpr ⟨rfl, ?_⟩
    cases taken with
    | true => exact List.forall_mem_cons.mpr ⟨rfl, List.forall_mem_singleton.mpr rfl⟩
    | false => exact List.forall_mem_nil _
  · simp only [jumping, State.perform, goOn, Memory.write, hrun]

theorem execute_halting (hnames : Names machine.state .halt) :
    machine.execute = (halting machine).execute machine := by
  have heval : machine.state.evaluate (instruction machine.state .halt) =
      outcome [] (.internal { ip := machine.state.ip, halted := true }) := rfl
  exact execute_eq_resolve_internal (hnames.next_eq_outcome heval)
    (taken_operandChecks machine.state 0) rfl

/-- The value is taken before the destination is looked at, and lost if there is no such cell. -/
theorem execute_receiving (hnames : Names machine.state .input)
    (hinlet : machine.input.pull ≠ .blocked) :
    machine.execute = (receiving machine).execute machine := by
  have heval : machine.state.evaluate (instruction machine.state .input) =
      outcome [] (.receive (Word.reduce (raw machine.state 1))) := rfl
  have hnext := hnames.next_eq_outcome heval
  rw [List.append_nil] at hnext
  refine execute_eq_resolve hnext (taken_operandChecks machine.state 1) fun hok => ?_
  have hpull := Inlet.pull_eq hinlet
  simp only [Machine.execute, hok, Machine.receive, receiving]
  cases hpending : machine.input.pending with
  | nil =>
    rw [hpending] at hpull
    rw [hpull, resolve_of_fails (by simp [supplied, hpending])]
    rfl
  | cons word rest =>
    rw [hpending] at hpull
    rw [hpull, resolve_of_holds (by simp [supplied, hpending])]
    simp only [List.head?_cons, Option.elim_some, destination_eq_outcome]
    cases hdest : (inMemory machine.state (raw machine.state 1)).holds with
    | true =>
      rw [outcome_of_holds hdest, resolve_of_holds rfl]
      simp only [outcome, resolve, List.find?_nil, State.received, goOn, stored, Word.reduce_val]
      rfl
    | false =>
      rw [outcome_of_fails hdest, resolve_of_fails rfl]
      rfl

theorem execute_sending (hnames : Names machine.state .output)
    (houtlet : ∀ word, machine.output.push word ≠ .blocked) :
    machine.execute = (sending machine).execute machine := by
  have hnext := hnames.next_eq_outcome (evaluate_output machine.state)
  rw [Row.execute, show (sending machine).checks = [readable machine.state 1] ++
    [accepted machine (Word.reduce (operand machine.state 1))] from rfl, ← List.append_assoc]
  refine execute_eq_resolve hnext ?_ fun hok => ?_
  · refine List.forall_mem_append.mpr ⟨taken_operandChecks _ _, ?_⟩
    exact List.forall_mem_singleton.mpr rfl
  · simp only [Machine.execute, hok, Machine.send, sending]
    cases hpush : machine.output.push (Word.reduce (operand machine.state 1)) with
    | refused output =>
      obtain rfl := Outlet.after_of_refused hpush
      rw [resolve_of_fails (by simp [accepted, Outlet.push?, hpush, Push.accepted?])]
      rfl
    | accepted output =>
      rw [resolve_of_holds (by simp [accepted, Outlet.push?, hpush, Push.accepted?])]
      simp only [Outlet.push?, hpush]
      rfl
    | blocked => exact absurd hpush (houtlet _)

/-! ## The step -/

/-- Once its operation is known, an instruction is executed as its row says. -/
theorem execute_eq_row {opcode : Opcode} (hnames : Names machine.state opcode)
    (hrun : machine.state.halted = false) (hinlet : machine.input.pull ≠ .blocked)
    (houtlet : ∀ word, machine.output.push word ≠ .blocked) :
    machine.execute = (row machine).execute machine := by
  have hcode := hnames.code_eq
  have ha := val_reduce_operand machine.state 1
  have hb := val_reduce_operand machine.state 2
  unfold row
  rw [hcode]
  cases opcode with
  | compute operator =>
    cases operator with
    | add =>
      refine execute_computing hnames hrun (apply_eq_outcome_fits hcode ?_)
        (List.forall_mem_singleton.mpr rfl)
      show Word.ofInt? ((Word.reduce _).val + (Word.reduce _).val) = _
      rw [ha, hb]
    | multiply =>
      refine execute_computing hnames hrun (apply_eq_outcome_fits hcode ?_)
        (List.forall_mem_singleton.mpr rfl)
      show Word.ofInt? ((Word.reduce _).val * (Word.reduce _).val) = _
      rw [ha, hb]
    | lessThan =>
      refine execute_computing hnames hrun (apply_eq_outcome_nil ?_) (List.forall_mem_nil _)
      show some (Word.ofBool ((Word.reduce _).val < (Word.reduce _).val)) = _
      rw [ha, hb]
    | equals =>
      refine execute_computing hnames hrun (apply_eq_outcome_nil ?_) (List.forall_mem_nil _)
      show some (Word.ofBool (Word.reduce _ = Word.reduce _)) = _
      simp only [reduce_operand_eq_iff]
  | input =>
    exact execute_receiving hnames hinlet
  | output =>
    exact execute_sending hnames houtlet
  | jump ifNonzero =>
    cases ifNonzero with
    | true =>
      refine execute_jumping hnames hrun ?_
      simp
    | false =>
      refine execute_jumping hnames hrun ?_
      simp
  | halt =>
    exact execute_halting hnames

theorem next_of_not_inMemory {state : State} (h : (inMemory state state.ip).holds = false) :
    state.next = .error (inMemory state state.ip).fault := by
  unfold State.next Memory.decode
  rw [fetch_eq_outcome, outcome_of_fails h]
  rfl

theorem next_of_not_named {state : State} (hin : (inMemory state state.ip).holds = true)
    (hnamed : (named state).holds = false) : state.next = .error (named state).fault := by
  have hnone : (if 0 ≤ opword state then Opcode.ofCode? (code state) else none) = none := by
    by_cases hle : 0 ≤ opword state
    · rw [if_pos hle]
      refine List.find?_eq_none.mpr fun opcode hmem => ?_
      have hnot := of_decide_eq_false hnamed
      rw [codes_eq] at hnot
      simp only [decide_eq_true_eq]
      intro hcode
      exact hnot ⟨hle, List.mem_map.mpr ⟨opcode, hmem, hcode⟩⟩
    · rw [if_neg hle]
  have hfail : Opcode.ofWord state.ip (Word.reduce (opword state)) =
      .error (named state).fault := by
    simp only [Opcode.ofWord, val_reduce_opword]
    rw [show (opword state).tmod 100 = code state from rfl, hnone]
    rfl
  unfold State.next Memory.decode
  rw [fetch_opword state hin, ok_bind, hfail]
  rfl

/-- **A step of a machine is the step of the table**, for a machine that has not halted, is within
its limit and has ports that do not block: the first condition that fails, in the order of the
table, decides the fault and its details, and if none fails the machine is the one that the table
describes. -/
theorem step_eq_table (machine : Machine) (hrun : machine.state.halted = false)
    (hlimit : ∀ limit, machine.limit = some limit → machine.state.steps < limit)
    (hinlet : machine.input.pull ≠ .blocked)
    (houtlet : ∀ word, machine.output.push word ≠ .blocked) :
    machine.step = Table.step machine := by
  have hexhausted : machine.exhausted? = none := by
    unfold Machine.exhausted?
    refine Option.filter_eq_none_iff.mpr fun limit hsome => ?_
    have hlt := hlimit limit hsome
    simpa using hlt
  have hexec : machine.step = machine.execute := by
    simp [Machine.step, hrun, hexhausted]
  rw [hexec, Table.step, checks]
  cases hin : (inMemory machine.state machine.state.ip).holds with
  | false =>
    rw [List.cons_append, resolve_of_fails hin]
    simp only [Machine.execute, next_of_not_inMemory hin]
    rfl
  | true =>
    rw [List.cons_append, resolve_of_holds hin]
    cases hnamed : (named machine.state).holds with
    | false =>
      rw [List.cons_append, resolve_of_fails hnamed]
      simp only [Machine.execute, next_of_not_named hin hnamed]
      rfl
    | true =>
      rw [List.cons_append, resolve_of_holds hnamed]
      obtain ⟨opcode, hnames⟩ := exists_names hin hnamed
      exact execute_eq_row hnames hrun hinlet houtlet

end

/-- The product overflows, and there is no cell 99 to store it in. -/
def overflowing : Machine where
  program := ⟨[1102, 0x4000000000000000, 2, 99]⟩

/-- There is a value to take and no cell 50 to store it in. -/
def misplacing : Machine where
  program := ⟨[3, 50]⟩
  input := .queue [7, 8]
  limit := some 1

/-- The jump is not taken, and there is no cell 50 to read its target from. -/
def skipping : Machine where
  program := ⟨[106, 1, 50]⟩

/-- The overflow wins over the destination, the value is lost with the destination, and the target
is not looked at. -/
theorem step_eq_table_corners :
    overflowing.step = (overflowing, .stopped (.faulted (.overflow 0 2))) ∧
      misplacing.step = ({ misplacing with input := .queue [8] },
        .stopped (.faulted (.addressOutOfRange 0 50 2))) ∧
      skipping.step = ({ skipping with state := { skipping.state with ip := 3, steps := 1 } },
        .executed (.jump false ⟨1, .immediate⟩ ⟨50, .position⟩)) := by
  refine ⟨?_, ?_, ?_⟩
  · rw [step_eq_table overflowing rfl (fun limit h => by cases h) (by decide) fun _ => nofun]
    decide
  · rw [step_eq_table misplacing rfl (fun limit h => by cases h; decide) (by decide) fun _ => nofun]
    decide
  · rw [step_eq_table skipping rfl (fun limit h => by cases h) (by decide) fun _ => nofun]
    decide

end Intcode.Table
