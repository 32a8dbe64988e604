import Intcode.Instruction.Decode

/-!
# The state of a run

Model of `State`, and of `execute` with `read`, `write` and `jump_target` as far as they concern the
state alone.

A `State` is everything a run changes apart from inlet and outlet: memory, instruction pointer,
halted flag, the log of outputs and the number of instructions executed. `State.next` decodes the
instruction at the pointer, evaluates it as far as that is possible without them, and says
what remains to be done: take effect on the state alone (`internal`), take a value (`receive`),
or offer one (`send`). Stand-alone machines and chains both build their steps on it, so they
agree on every instruction by construction.

`State.next` changes nothing. The three functions `perform`, `received` and `sent` give the state
after the instruction, and none of them can fail: every check has been made by then.
-/

namespace Intcode

/-- The state of a run, inlet and outlet apart. -/
structure State where
  memory : Memory
  /-- The address of the next instruction. -/
  ip : Nat := 0
  halted : Bool := false
  /-- The last output. -/
  last : Option Word := none
  /-- All outputs, in order. -/
  outputs : Array Word := #[]
  /-- How many instructions have been executed. -/
  steps : Nat := 0
deriving DecidableEq

/-- What an instruction that neither receives nor sends does to the state. -/
structure Effect where
  /-- The address of the instruction to follow. -/
  ip : Nat
  /-- The cell to overwrite, and its new content. -/
  write : Option (Nat × Word) := none
  /-- Is the run over? -/
  halted : Bool := false
deriving DecidableEq

/-- What the instruction at the pointer asks for. -/
inductive Action where
  /-- Nothing is received or sent. -/
  | internal (effect : Effect)
  /-- A value is to be taken from the inlet and stored. -/
  | receive (dest : Word)
  /-- A value is to be offered to the outlet. -/
  | send (value : Word)
deriving DecidableEq

namespace State

/-- The state in which a run of a program starts (`State::fresh`). -/
def fresh (program : Program) : State := { memory := .ofProgram program }

/-! ## Looking at the state -/

/-- The fault of an address that memory does not have (`out_of_range`). -/
def outOfRange (state : State) (address : Word) : Fault :=
  .addressOutOfRange state.ip address state.memory.size

/-- The value of an operand (`read`). -/
def read (state : State) (operand : Operand) : Except Fault Word :=
  match operand.mode with
  | .immediate => .ok operand.value
  | .position =>
    match state.memory.load? operand.value with
    | some value => .ok value
    | none => .error (state.outOfRange operand.value)

/-- The index of the cell that a destination addresses: what `write` checks before it writes. -/
def destination (state : State) (address : Word) : Except Fault Nat :=
  match state.memory.index? address with
  | some index => .ok index
  | none => .error (state.outOfRange address)

/-- Where a jump goes: any address that is not negative, inside memory or not (`jump_target`). -/
def target (state : State) (operand : Operand) : Except Fault Nat := do
  let address ← state.read operand
  match address.toAddress? with
  | some ip => return ip
  | none => throw (state.outOfRange address)

/-- The address behind an instruction at the pointer. -/
def behind (state : State) (opcode : Opcode) : Nat := state.ip + opcode.length

/-- Evaluates an instruction up to the point where it receives or sends: the arms of `execute`. -/
def evaluate (state : State) (instruction : Instruction) : Except Fault Action :=
  match instruction with
  | .compute operator a b dest => do
    let a ← state.read a
    let b ← state.read b
    match operator.apply? a b with
    | some value =>
      let index ← state.destination dest
      return .internal { ip := state.behind instruction.opcode, write := some (index, value) }
    | none => throw (.overflow state.ip instruction.opcode.code)
  | .input dest => return .receive dest
  | .output value => return .send (← state.read value)
  | .jump ifNonzero condition target => do
    let condition ← state.read condition
    if decide (condition ≠ 0) = ifNonzero then
      return .internal { ip := ← state.target target }
    else
      return .internal { ip := state.behind instruction.opcode }
  | .halt => return .internal { ip := state.ip, halted := true }

/-- The instruction at the pointer and what it asks for. -/
def next (state : State) : Except Fault (Instruction × Action) := do
  let instruction ← state.memory.decode state.ip
  return (instruction, ← state.evaluate instruction)

/-! ## The state after an instruction -/

/-- The state after an instruction that neither receives nor sends. -/
def perform (state : State) (effect : Effect) : State :=
  { state with
    memory := state.memory.write effect.write
    ip := effect.ip
    halted := effect.halted
    steps := state.steps + 1 }

/-- The state after an `in` instruction has stored a value at an index. -/
def received (state : State) (index : Nat) (value : Word) : State :=
  { state with
    memory := state.memory.set index value
    ip := state.behind .input
    steps := state.steps + 1 }

/-- The state after an `out` instruction has sent a value. -/
def sent (state : State) (value : Word) : State :=
  { state with
    ip := state.behind .output
    last := some value
    outputs := state.outputs.push value
    steps := state.steps + 1 }

end State

end Intcode
