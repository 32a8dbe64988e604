import Intcode.Instruction
import Intcode.Memory

/-!
# Decoding

Model of `split_opcode` and `decode`. `decode` fetches the opcode word, leaves it to `split_opcode`,
and fetches the parameters.

An instruction starts with an opcode word. Its last two digits are the code of the operation;
the digits above them, from the right, give the modes of the parameters, one each, and whatever
stands above those is ignored. The parameters follow in the next cells.

`Memory.decode` checks in this order: the opcode word exists, it names an operation, the mode
digits from the first parameter to the last, then the parameters' cells in the same order. The
digit of a destination is checked like any other and means nothing.
-/

namespace Intcode

/-! ## The opcode word -/

namespace Opcode

/-- The operation that an opcode word names; a negative word names none. This is what `split_opcode`
finds out first. -/
def ofWord (ip : Nat) (word : Word) : Except Fault Opcode :=
  let code := word.val.tmod 100
  match if 0 ≤ word.val then ofCode? code else none with
  | some opcode => .ok opcode
  | none => .error (.unknownOpcode ip code word)

/-- The digit of a nonnegative opcode word for parameter `param`, counted from one. -/
def modeDigit (word : Word) (param : Nat) : Int := word.val / Nat.pow 10 (param + 1) % 10

/-- The mode of parameter `param`, counted from one: a round of the loop in `split_opcode`, whose
`digits` lose one in every round. -/
def modeOf (ip : Nat) (opcode : Opcode) (word : Word) (param : Nat) : Except Fault Mode :=
  match Mode.ofDigit? (modeDigit word param) with
  | some mode => .ok mode
  | none => .error (.invalidMode ip opcode.code param (modeDigit word param))

/-- The operation of an opcode word and the modes of its parameters (`split_opcode`). -/
def split (ip : Nat) (word : Word) : Except Fault (Opcode × List Mode) := do
  let opcode ← ofWord ip word
  let modes ← (List.range' 1 opcode.arity).mapM (opcode.modeOf ip word)
  return (opcode, modes)

end Opcode

/-! ## Instructions in memory -/

namespace Memory

/-- The cell at `address`, on behalf of the instruction at `ip`: the closure `fetch` of `decode`. -/
def fetch (memory : Memory) (ip address : Nat) : Except Fault Word :=
  match memory.get? address with
  | some word => .ok word
  | none => .error (.addressOutOfRange ip (Word.wrap address) memory.size)

/-- The instruction that starts at `ip` (`decode`). -/
def decode (memory : Memory) (ip : Nat) : Except Fault Instruction := do
  let word ← memory.fetch ip ip
  let opcode ← Opcode.ofWord ip word
  let mode := opcode.modeOf ip word
  let fetch := fun param => memory.fetch ip (ip + param)
  match opcode with
  | .compute operator =>
    let modeA ← mode 1
    let modeB ← mode 2
    let _ ← mode 3
    let a ← fetch 1
    let b ← fetch 2
    let dest ← fetch 3
    return .compute operator ⟨a, modeA⟩ ⟨b, modeB⟩ dest
  | .input =>
    let _ ← mode 1
    let dest ← fetch 1
    return .input dest
  | .output =>
    let modeValue ← mode 1
    let value ← fetch 1
    return .output ⟨value, modeValue⟩
  | .jump ifNonzero =>
    let modeCondition ← mode 1
    let modeTarget ← mode 2
    let condition ← fetch 1
    let target ← fetch 2
    return .jump ifNonzero ⟨condition, modeCondition⟩ ⟨target, modeTarget⟩
  | .halt => return .halt

end Memory

end Intcode
