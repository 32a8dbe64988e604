import Intcode.Text.Quoted
import Intcode.Word

/-!
# Faults

Model of `Error`: everything that can go wrong between reading a program and the end of its run. A
fault carries what its message quotes; `message` is the only place that words it.
-/

namespace Intcode

/-- Why a source was rejected, or why a machine stopped without halting. -/
inductive Fault where
  /-- The piece of the source at `index` is not a word. -/
  | parse (index : Nat) (token : String)
  /-- The word at `ip` names no operation; `code` is its last two digits, with its sign. -/
  | unknownOpcode (ip : Nat) (code : Int) (word : Word)
  /-- The digit that should give the mode of parameter `param`, counted from one, gives none. -/
  | invalidMode (ip : Nat) (code : Int) (param : Nat) (digit : Int)
  /-- The instruction at `ip` needs a cell that a memory of `size` cells does not have. -/
  | addressOutOfRange (ip : Nat) (address : Word) (size : Nat)
  /-- Nothing will ever arrive at the inlet. -/
  | inputClosed (ip : Nat)
  /-- Nobody will ever take what is sent to the outlet. -/
  | outputClosed (ip : Nat)
  /-- No word holds the result of operation `code`. -/
  | overflow (ip : Nat) (code : Int)
  /-- The run has used up the instructions it was allowed. -/
  | stepLimit (limit : Nat)
deriving DecidableEq

namespace Fault

/-- The message shown to the user. -/
def message : Fault → String
  | parse index token =>
    "token " ++ Decimal.ofNat index ++ " is not an integer: " ++ Text.Quoted.encode token
  | unknownOpcode ip code word =>
    "unsupported operation code " ++ Decimal.ofInt code ++ " (opcode word " ++ word.text
      ++ ") at ip " ++ Decimal.ofNat ip
  | invalidMode ip code param digit =>
    "invalid mode " ++ Decimal.ofInt digit ++ " for parameter " ++ Decimal.ofNat param
      ++ " of operation " ++ Decimal.ofInt code ++ " at ip " ++ Decimal.ofNat ip
  | addressOutOfRange ip address size =>
    "address " ++ address.text ++ " out of range (memory holds " ++ Decimal.ofNat size
      ++ " cells) at ip " ++ Decimal.ofNat ip
  | inputClosed ip => "input channel closed at ip " ++ Decimal.ofNat ip
  | outputClosed ip => "output channel closed at ip " ++ Decimal.ofNat ip
  | overflow ip code =>
    "arithmetic overflow in operation " ++ Decimal.ofInt code ++ " at ip " ++ Decimal.ofNat ip
  | stepLimit limit => "step limit of " ++ Decimal.ofNat limit ++ " instructions exhausted"

/-- Did a neighbour's hang-up cause the fault, rather than the program itself? This is the test
`cascade` of `root_fault`. -/
def isDisconnect : Fault → Bool
  | inputClosed _ | outputClosed _ => true
  | _ => false

end Fault

end Intcode
