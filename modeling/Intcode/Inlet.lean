import Intcode.Word

/-!
# Inlets

Model of the ports that implement `Input`. An `Inlet` is where a machine takes its input from. It is
a value: taking something from it gives the inlet as it is afterwards.

A pull is answered with a value, with `disconnected` when no value will ever come (`Disconnected`),
or it is `blocked` and does not return before one comes. Only a channel that is still open can
block.

* `pending_of_pull`: a pull gives the first pending value and leaves the others.
-/

namespace Intcode

/-- Where a machine's input comes from. -/
inductive Inlet where
  /-- Nothing is connected (`NoInput`). -/
  | absent
  /-- Values queued in advance, and no others unless the owner adds them (`VecDeque`). -/
  | queue (pending : List Word)
  /-- Values that were sent and not yet taken; more can come while the channel is open
  (`Receiver`). -/
  | channel (pending : List Word) (isOpen : Bool)
deriving DecidableEq

/-- The answer to a pull. -/
inductive Pull where
  | value (word : Word) (rest : Inlet)
  | disconnected
  | blocked
deriving DecidableEq

namespace Inlet

/-- Asks for the next value (`Input::pull`). -/
def pull : Inlet → Pull
  | absent => .disconnected
  | queue [] => .disconnected
  | queue (word :: rest) => .value word (queue rest)
  | channel [] isOpen => if isOpen then .blocked else .disconnected
  | channel (word :: rest) isOpen => .value word (channel rest isOpen)

/-- The values that can be pulled without anybody's help. -/
def pending : Inlet → List Word
  | absent => []
  | queue words => words
  | channel words _ => words

/-- Adds values to the end of a queue; the owner of a machine can do so at any time
(`Machine::input_mut`). -/
def feed (inlet : Inlet) (words : List Word) : Inlet :=
  match inlet with
  | queue before => queue (before ++ words)
  | other => other

/-- Sends a value into an open channel; anything else refuses it. -/
def send? (inlet : Inlet) (word : Word) : Option Inlet :=
  match inlet with
  | channel before true => some (channel (before ++ [word]) true)
  | _ => none

/-- Closes a channel; what is pending can still be pulled. -/
def close : Inlet → Inlet
  | channel words _ => channel words false
  | other => other

/-! ## Lemmas -/

/-- What a pull gives was pending in front of everything that is left. -/
theorem pending_of_pull {inlet rest : Inlet} {word : Word} (h : inlet.pull = .value word rest) :
    inlet.pending = word :: rest.pending := by
  cases inlet with
  | absent => cases h
  | queue words =>
    cases words with
    | nil => cases h
    | cons w ws => cases h; rfl
  | channel words isOpen =>
    cases words with
    | nil => cases isOpen <;> cases h
    | cons w ws => cases h; rfl

end Inlet

end Intcode
