import Intcode.Proofs.Machine.Step

/-!
# The instruction table

This file writes `Machine::step` down a second time, as a table: for every operation the number of
its parameters, the conditions it needs in the order in which they are tested, and the machine
afterwards. Everything is read off the state as a plain integer, whether the cell exists or not, and
all arithmetic is on integers. The conditions are what keeps a number from nowhere out of the
result: `Table.step` takes the first one that fails and reports its fault, and only if all hold does
the machine change as the table says.

With `w` the opcode word, its code is `w` modulo 100, and the mode digit of parameter `k` is the
one that stands for `10^(k+1)`. The conditions are, in this order: the opcode word exists; it is not
negative and names an operation; the mode digits are valid; the parameters exist; and then those of
the operation. The file `TableStep.lean` proves that a machine does what the table says.

Results:
* `bind_eq_outcome`: a computation after another one tests its conditions after those of the other.
* `fetch_eq_outcome`, `read_eq_outcome`, `destination_eq_outcome`, `target_eq_outcome`: the accesses
  to memory each test the conditions of the table, and give the integers that it reads.
-/

namespace Intcode

/-- The word congruent to `n` modulo `2^64`, which is `n` itself if a word holds it. -/
def Word.reduce (n : Int) : Word where
  val := Int.bmod n 0x10000000000000000
  neg_bound_le := by
    have := Int.le_bmod (x := n) (m := 0x10000000000000000) (by decide)
    simp only [bound]
    omega
  lt_bound := by
    have := Int.bmod_lt (x := n) (m := 0x10000000000000000) (by decide)
    simp only [bound]
    omega

theorem Word.val_reduce {n : Int} (hle : -bound ≤ n) (hlt : n < bound) : (reduce n).val = n := by
  simp only [bound] at hle hlt
  simp only [reduce, Int.bmod]
  split <;> omega

@[simp] theorem Word.reduce_val (a : Word) : reduce a.val = a :=
  ext (val_reduce a.neg_bound_le a.lt_bound)

/-- The inlet after its first value was taken. -/
def Inlet.tail : Inlet → Inlet
  | absent => absent
  | queue words => queue words.tail
  | channel words isOpen => channel words.tail isOpen

/-- An inlet that does not block gives its first value, or is disconnected. -/
theorem Inlet.pull_eq {inlet : Inlet} (h : inlet.pull ≠ .blocked) :
    inlet.pull = inlet.pending.head?.elim .disconnected fun word => .value word inlet.tail := by
  cases inlet with
  | absent => rfl
  | queue words => cases words <;> rfl
  | channel words isOpen =>
    cases words with
    | cons word rest => rfl
    | nil =>
      cases isOpen with
      | true => exact absurd rfl h
      | false => rfl

namespace Table

/-! ## Reading a state as integers -/

section
variable (state : State)

/-- The cell at an address; zero where there is none. -/
def cell (address : Int) : Int :=
  if 0 ≤ address then (state.memory.get? address.toNat).elim 0 Word.val else 0

/-- The opcode word. -/
def opword : Int := cell state state.ip

/-- The code of the operation: the last two digits of the opcode word, with its sign. -/
def code : Int := (opword state).tmod 100

/-- The mode digit of parameter `k`, counted from one. -/
def digit (k : Nat) : Int := opword state / Nat.pow 10 (k + 1) % 10

/-- Parameter `k` as it stands in memory. -/
def raw (k : Nat) : Int := cell state (state.ip + k)

/-- The operand that parameter `k` stands for: itself under mode 1, else the cell it addresses. -/
def operand (k : Nat) : Int := if digit state k = 1 then raw state k else cell state (raw state k)

/-- Parameter `k` as an operand of the decoded instruction. -/
def parameter (k : Nat) : Operand where
  value := Word.reduce (raw state k)
  mode := if digit state k = 1 then .immediate else .position

/-! ## Conditions -/

/-- A condition, and the fault if it fails. -/
structure Check where
  holds : Bool
  fault : Fault
  /-- Has a value been taken from the inlet by the time the condition is tested? -/
  taken : Bool := false

/-- There is a cell at this address. -/
def inMemory (address : Int) : Check where
  holds := decide (0 ≤ address ∧ address < state.memory.size)
  fault := .addressOutOfRange state.ip (Word.reduce address) state.memory.size

/-- The opcode word names an operation. -/
def named : Check where
  holds := decide (0 ≤ opword state ∧ code state ∈ [1, 2, 3, 4, 5, 6, 7, 8, 99])
  fault := .unknownOpcode state.ip (code state) (Word.reduce (opword state))

/-- The mode digit of parameter `k` is valid. -/
def moded (k : Nat) : Check where
  holds := decide (digit state k = 0 ∨ digit state k = 1)
  fault := .invalidMode state.ip (code state) k (digit state k)

/-- Parameter `k` is itself the operand, or there is a cell at the address that it gives. -/
def readable (k : Nat) : Check where
  holds := decide (digit state k = 1) || (inMemory state (raw state k)).holds
  fault := (inMemory state (raw state k)).fault

/-- A word holds the result. -/
def fits (result : Int) : Check where
  holds := decide (-Word.bound ≤ result ∧ result < Word.bound)
  fault := .overflow state.ip (code state)

/-- The operand is an address to go to, inside memory or not. -/
def reachable (k : Nat) : Check where
  holds := decide (0 ≤ operand state k)
  fault := (inMemory state (operand state k)).fault

/-! ## The table -/

/-- The state after an instruction that goes on at `ip`. -/
def goOn (ip : Nat) : State := { state with ip, steps := state.steps + 1 }

/-- The memory with a result stored where parameter `k` says. -/
def stored (k : Nat) (result : Int) : Memory :=
  state.memory.set (raw state k).toNat (Word.reduce result)

end

/-- What the table says about an operation, given the machine that is to execute it. -/
structure Row where
  /-- The number of parameters. -/
  parameters : Nat
  /-- The conditions to be tested once the parameters are known. -/
  checks : List Check
  instruction : Instruction
  after : Machine

section
variable (machine : Machine)

/-- There is a value to take. -/
def supplied : Check where
  holds := !machine.input.pending.isEmpty
  fault := .inputClosed machine.state.ip

/-- The outlet accepts a value. -/
def accepted (value : Word) : Check where
  holds := (machine.output.push? value).isSome
  fault := .outputClosed machine.state.ip

/-- Stores a result computed from two operands. -/
def computing (operator : Operator) (result : Int) (checked : List Check) : Row :=
  let state := machine.state
  { parameters := 3
    checks := readable state 1 :: readable state 2 :: (checked ++ [inMemory state (raw state 3)])
    instruction := .compute operator (parameter state 1) (parameter state 2)
      (Word.reduce (raw state 3))
    after := { machine with
      state := { goOn state (state.ip + 4) with memory := stored state 3 result } } }

/-- Stores the next value of the inlet. -/
def receiving : Row :=
  let state := machine.state
  let value := machine.input.pending.head?.elim 0 Word.val
  { parameters := 1
    checks := [supplied machine, { inMemory state (raw state 1) with taken := true }]
    instruction := .input (Word.reduce (raw state 1))
    after := { machine with
      input := machine.input.tail
      state := { goOn state (state.ip + 2) with memory := stored state 1 value } } }

/-- Sends an operand and records it. -/
def sending : Row :=
  let state := machine.state
  let value := Word.reduce (operand state 1)
  { parameters := 1
    checks := [readable state 1, accepted machine value]
    instruction := .output (parameter state 1)
    after := { machine with
      output := (machine.output.push? value).getD machine.output
      state := { goOn state (state.ip + 2) with
        last := some value
        outputs := state.outputs.push value } } }

/-- Goes to the address given by the second operand if the jump is taken. -/
def jumping (ifNonzero taken : Bool) : Row :=
  let state := machine.state
  let ip := if taken then (operand state 2).toNat else state.ip + 3
  { parameters := 2
    checks := readable state 1 :: if taken then [readable state 2, reachable state 2] else []
    instruction := .jump ifNonzero (parameter state 1) (parameter state 2)
    after := { machine with state := goOn state ip } }

/-- Stops. -/
def halting : Row :=
  let state := machine.state
  { parameters := 0
    checks := []
    instruction := .halt
    after := { machine with state := { goOn state state.ip with halted := true } } }

/-- **The instruction table.** Code 99 is the last line, since other codes are not looked up. -/
def row : Row :=
  let a := operand machine.state 1
  let b := operand machine.state 2
  match code machine.state with
  | 1 => computing machine .add (a + b) [fits machine.state (a + b)]
  | 2 => computing machine .multiply (a * b) [fits machine.state (a * b)]
  | 3 => receiving machine
  | 4 => sending machine
  | 5 => jumping machine true (decide (a ≠ 0))
  | 6 => jumping machine false (decide (a = 0))
  | 7 => computing machine .lessThan (if a < b then 1 else 0) []
  | 8 => computing machine .equals (if a = b then 1 else 0) []
  | _ => halting machine

/-- The conditions on the parameters: first their mode digits, then their cells. -/
def operandChecks (state : State) (count : Nat) : List Check :=
  (List.range' 1 count).map (moded state) ++
    (List.range' 1 count).map fun k : Nat => inMemory state (state.ip + k)

/-- All conditions, in the order in which they are tested. -/
def checks : List Check :=
  [inMemory machine.state machine.state.ip, named machine.state] ++
    (operandChecks machine.state (row machine).parameters ++ (row machine).checks)

/-- The first condition that fails decides; if none does, the machine goes on to `done`. -/
def resolve (conditions : List Check) (done : Machine × Outcome) : Machine × Outcome :=
  match conditions.find? fun check => !check.holds with
  | none => done
  | some check =>
    (if check.taken then { machine with input := machine.input.tail } else machine).faulted
      check.fault

/-- One step, by the table. -/
def step : Machine × Outcome :=
  resolve machine (checks machine) ((row machine).after, .executed (row machine).instruction)

/-- What is left of a step once the operation is known. -/
def Row.execute (line : Row) : Machine × Outcome :=
  resolve machine (operandChecks machine.state line.parameters ++ line.checks)
    (line.after, .executed line.instruction)

end

/-! ## Computations that test conditions -/

/-- Tests the conditions in order, and gives a value if all hold. -/
def outcome {α : Type} (conditions : List Check) (value : α) : Except Fault α :=
  match conditions.find? fun check => !check.holds with
  | none => .ok value
  | some check => .error check.fault

section
variable {α β : Type} {x : Except Fault α} {f : α → Except Fault β} {value : α} {result : β}
  {check : Check} {conditions rest : List Check}

theorem ok_bind (value : α) (f : α → Except Fault β) : (Except.ok value >>= f) = f value := rfl

theorem outcome_of_holds (h : check.holds = true) (value : α) :
    outcome (check :: rest) value = outcome rest value := by
  simp [outcome, h]

theorem outcome_of_fails (h : check.holds = false) (value : α) :
    outcome (check :: rest) value = .error check.fault := by
  simp [outcome, h]

/-- **A computation after another one tests its conditions after those of the other.** -/
theorem bind_eq_outcome (hx : x = outcome conditions value) (hf : f value = outcome rest result) :
    (x >>= f) = outcome (conditions ++ rest) result := by
  rw [hx]
  unfold outcome at hf ⊢
  rw [List.find?_append]
  cases conditions.find? fun check => !check.holds with
  | some check => rfl
  | none => exact hf

/-- The same for a single condition. -/
theorem bind_eq_outcome_cons (hx : x = outcome [check] value)
    (hf : f value = outcome rest result) : (x >>= f) = outcome (check :: rest) result :=
  bind_eq_outcome hx hf

/-- The same for a computation that tests nothing more. -/
theorem bind_eq_outcome_last (hx : x = outcome conditions value) (hf : f value = .ok result) :
    (x >>= f) = outcome conditions result := by
  have h : (x >>= f) = outcome (conditions ++ []) result := bind_eq_outcome hx hf
  rwa [List.append_nil] at h

end

/-! ## Cells and operands -/

section
variable (state : State)

/-- A cell is a word. -/
theorem val_reduce_cell (address : Int) :
    (Word.reduce (cell state address)).val = cell state address := by
  unfold cell
  by_cases h : 0 ≤ address
  · rw [if_pos h]
    cases state.memory.get? address.toNat with
    | none => exact Word.val_reduce (by decide) (by decide)
    | some word => exact congrArg Word.val word.reduce_val
  · rw [if_neg h]
    exact Word.val_reduce (by decide) (by decide)

theorem val_reduce_opword : (Word.reduce (opword state)).val = opword state :=
  val_reduce_cell state _

theorem val_reduce_raw (k : Nat) : (Word.reduce (raw state k)).val = raw state k :=
  val_reduce_cell state _

theorem val_reduce_operand (k : Nat) :
    (Word.reduce (operand state k)).val = operand state k := by
  unfold operand
  split
  · exact val_reduce_raw state k
  · exact val_reduce_cell state _

/-- There is a word at an address in memory. -/
theorem get?_of_inMemory {address : Int} (h : (inMemory state address).holds = true) :
    state.memory.get? address.toNat = some (Word.reduce (cell state address)) := by
  obtain ⟨hle, hlt⟩ := of_decide_eq_true h
  have hnat : address.toNat < state.memory.cells.size := by
    have hsize : state.memory.size = state.memory.cells.size := rfl
    omega
  have hget : state.memory.get? address.toNat = some state.memory.cells[address.toNat] :=
    Array.getElem?_eq_getElem hnat
  rw [hget, cell, if_pos hle, hget]
  exact congrArg some (Word.reduce_val _).symm

theorem fetch_eq_outcome (address : Nat) :
    state.memory.fetch state.ip address =
      outcome [inMemory state address] (Word.reduce (cell state address)) := by
  unfold Memory.fetch
  cases h : (inMemory state address).holds with
  | true =>
    rw [outcome_of_holds h, show state.memory.get? address = _ from get?_of_inMemory state h]
    rfl
  | false =>
    have hle : state.memory.cells.size ≤ address := by
      have hnot := of_decide_eq_false h
      have hsize : state.memory.size = state.memory.cells.size := rfl
      omega
    rw [outcome_of_fails h, show state.memory.get? address = none from
      Array.getElem?_eq_none hle]
    rfl

/-- The opcode word is fetched if there is one. -/
theorem fetch_opword (h : (inMemory state state.ip).holds = true) :
    state.memory.fetch state.ip state.ip = .ok (Word.reduce (opword state)) := by
  rw [fetch_eq_outcome, outcome_of_holds h]
  rfl

theorem fetch_raw (k : Nat) :
    state.memory.fetch state.ip (state.ip + k) =
      outcome [inMemory state (state.ip + k)] (Word.reduce (raw state k)) :=
  fetch_eq_outcome state (state.ip + k)

theorem index?_eq (address : Word) :
    state.memory.index? address =
      if (inMemory state address.val).holds then some address.val.toNat else none := by
  unfold Memory.index? Word.toAddress? inMemory
  by_cases hle : 0 ≤ address.val
  · rw [if_pos hle]
    by_cases hlt : address.val < state.memory.size
    · simp [hle, hlt, Int.toNat_lt]
    · simp [hle, hlt, Int.not_lt.mp hlt]
  · simp [hle]

theorem destination_eq_outcome (k : Nat) :
    state.destination (Word.reduce (raw state k)) =
      outcome [inMemory state (raw state k)] (raw state k).toNat := by
  unfold State.destination
  rw [index?_eq, val_reduce_raw]
  cases h : (inMemory state (raw state k)).holds with
  | true =>
    rw [outcome_of_holds h]
    rfl
  | false =>
    rw [outcome_of_fails h]
    rfl

theorem read_eq_outcome (k : Nat) :
    state.read (parameter state k) =
      outcome [readable state k] (Word.reduce (operand state k)) := by
  unfold State.read parameter operand
  by_cases hdigit : digit state k = 1
  · rw [outcome_of_holds (by simp [readable, hdigit]), if_pos hdigit, if_pos hdigit]
    rfl
  · simp only [if_neg hdigit]
    have hread : (readable state k).holds = (inMemory state (raw state k)).holds := by
      simp [readable, hdigit]
    unfold Memory.load?
    rw [index?_eq, val_reduce_raw]
    cases h : (inMemory state (raw state k)).holds with
    | true =>
      rw [outcome_of_holds (hread.trans h), if_pos rfl, Option.bind_some,
        get?_of_inMemory state h]
      rfl
    | false =>
      rw [outcome_of_fails (hread.trans h)]
      rfl

theorem target_eq_outcome (k : Nat) :
    state.target (parameter state k) =
      outcome [readable state k, reachable state k] (operand state k).toNat := by
  unfold State.target
  refine bind_eq_outcome_cons (read_eq_outcome state k) ?_
  unfold Word.toAddress?
  rw [val_reduce_operand]
  by_cases h : 0 ≤ operand state k
  · rw [if_pos h, outcome_of_holds (by simpa [reachable] using h)]
    rfl
  · rw [if_neg h, outcome_of_fails (by simpa [reachable] using h)]
    rfl

end

end Table

end Intcode
