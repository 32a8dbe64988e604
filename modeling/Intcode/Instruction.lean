import Intcode.Word

/-!
# Instructions

Model of `Opcode`, `ParamMode`, `Param` and `Instruction`, and of how they are displayed.

The nine operations and the instructions built from them. Four operations compute a word from
two operands and store it, so they share one shape, and the two jumps differ only in which
outcome of the test they follow.

An operand is a word together with its mode: under `position` the word addresses the cell that
holds the operand, under `immediate` the word is the operand. A destination is always an
address. `Instruction.text` is the assembly notation: `#` marks an immediate operand, brackets
mark a destination.
-/

namespace Intcode

/-! ## Operations -/

/-- A function of two words. -/
inductive Operator where
  | add
  | multiply
  | lessThan
  | equals
deriving DecidableEq

/-- The result for two words, as `execute` computes it; a sum or product that no word holds is
none. -/
def Operator.apply? : Operator → Word → Word → Option Word
  | add, a, b => a.add? b
  | multiply, a, b => a.mul? b
  | lessThan, a, b => some (Word.ofBool (a.val < b.val))
  | equals, a, b => some (Word.ofBool (a = b))

/-- An operation of the machine (`Opcode`). -/
inductive Opcode where
  /-- Store a function of two operands. -/
  | compute (operator : Operator)
  /-- Store a value taken from the inlet. -/
  | input
  /-- Send an operand to the outlet. -/
  | output
  /-- Jump if the condition is nonzero (`true`), or if it is zero (`false`). -/
  | jump (ifNonzero : Bool)
  /-- Stop. -/
  | halt
deriving DecidableEq

namespace Opcode

/-- All operations, by increasing code (`Opcode::ALL`). -/
def all : List Opcode :=
  [compute .add, compute .multiply, input, output, jump true, jump false, compute .lessThan,
    compute .equals, halt]

/-- The number that names the operation in a program (`Opcode::code`). -/
def code : Opcode → Int
  | compute .add => 1
  | compute .multiply => 2
  | input => 3
  | output => 4
  | jump true => 5
  | jump false => 6
  | compute .lessThan => 7
  | compute .equals => 8
  | halt => 99

/-- The operation with a given code (`Opcode::from_code`). -/
def ofCode? (code : Int) : Option Opcode := all.find? fun opcode => opcode.code = code

/-- The name of the operation in assembly notation (`Opcode::mnemonic`). -/
def mnemonic : Opcode → String
  | compute .add => "add"
  | compute .multiply => "mul"
  | input => "in"
  | output => "out"
  | jump true => "jnz"
  | jump false => "jz"
  | compute .lessThan => "lt"
  | compute .equals => "eq"
  | halt => "halt"

/-- The number of parameters (`Opcode::param_count`). -/
def arity : Opcode → Nat
  | compute _ => 3
  | input => 1
  | output => 1
  | jump _ => 2
  | halt => 0

/-- The number of words an instruction takes: its opcode word and its parameters
(`Opcode::encoded_len`). -/
def length (opcode : Opcode) : Nat := 1 + opcode.arity

theorem mem_all (opcode : Opcode) : opcode ∈ all := by
  cases opcode with
  | compute operator => cases operator <;> decide
  | jump ifNonzero => cases ifNonzero <;> decide
  | input | output | halt => decide

/-- The code determines the operation. -/
theorem ofCode?_code (opcode : Opcode) : ofCode? opcode.code = some opcode := by
  cases opcode with
  | compute operator => cases operator <;> decide
  | jump ifNonzero => cases ifNonzero <;> decide
  | input | output | halt => decide

end Opcode

/-! ## Parameters -/

/-- How an operand's word is to be understood (`ParamMode`). -/
inductive Mode where
  /-- The word addresses the operand. -/
  | position
  /-- The word is the operand. -/
  | immediate
deriving DecidableEq

namespace Mode

/-- The mode of a parameter whose digit is not written. -/
instance : Inhabited Mode := ⟨position⟩

/-- The mode that a digit of an opcode word stands for (`ParamMode::from_digit`). -/
def ofDigit? (digit : Int) : Option Mode :=
  if digit = 0 then some position else if digit = 1 then some immediate else none

end Mode

/-- A parameter that is read (`Param`). -/
structure Operand where
  value : Word
  mode : Mode
deriving DecidableEq

/-- Assembly notation of an operand. -/
def Operand.text (operand : Operand) : String :=
  match operand.mode with
  | .position => operand.value.text
  | .immediate => "#" ++ operand.value.text

/-- A parameter of an instruction. -/
inductive Parameter where
  /-- A parameter that is read. -/
  | operand (operand : Operand)
  /-- The address that is written. -/
  | destination (address : Word)
deriving DecidableEq

/-- Assembly notation of a parameter. -/
def Parameter.text : Parameter → String
  | operand o => o.text
  | destination address => "[" ++ address.text ++ "]"

/-! ## Instructions -/

/-- An operation with its parameters. -/
inductive Instruction where
  /-- Store `operator` of `a` and `b` at `dest`. -/
  | compute (operator : Operator) (a b : Operand) (dest : Word)
  /-- Store the next input at `dest`. -/
  | input (dest : Word)
  /-- Output `value`. -/
  | output (value : Operand)
  /-- Go to `target` if `condition` is nonzero, or zero, as `ifNonzero` says. -/
  | jump (ifNonzero : Bool) (condition target : Operand)
  /-- Stop. -/
  | halt
deriving DecidableEq

namespace Instruction

/-- The operation of an instruction (`Instruction::opcode`). -/
def opcode : Instruction → Opcode
  | compute operator .. => .compute operator
  | input _ => .input
  | output _ => .output
  | jump ifNonzero .. => .jump ifNonzero
  | halt => .halt

/-- The number of words of an instruction (`Instruction::encoded_len`). -/
def length (instruction : Instruction) : Nat := instruction.opcode.length

/-- The parameters, in the order in which they are encoded. -/
def parameters : Instruction → List Parameter
  | compute _ a b dest => [.operand a, .operand b, .destination dest]
  | input dest => [.destination dest]
  | output value => [.operand value]
  | jump _ condition target => [.operand condition, .operand target]
  | halt => []

/-- Assembly notation: the mnemonic, then the parameters with commas between them. -/
def text (instruction : Instruction) : String :=
  match instruction.parameters with
  | [] => instruction.opcode.mnemonic
  | parameters =>
    instruction.opcode.mnemonic ++ " " ++ ", ".intercalate (parameters.map Parameter.text)

theorem length_parameters (instruction : Instruction) :
    instruction.parameters.length = instruction.opcode.arity := by
  cases instruction <;> rfl

theorem length_pos (instruction : Instruction) : 0 < instruction.length := by
  simp only [length, Opcode.length]
  omega

end Instruction

end Intcode
