import Intcode.Log
import Intcode.Machine

/-!
# What machines log

Model of the records that `Machine::run`, `step` and `execute` make: that a run starts, each
instruction that was decoded, each value that was sent, and how the run has ended. All of them come
from the target `intcode::machine`. A run that faults is the only one to be warned of.

The records are functions of the states that a run goes through, so that the log is a second walk
over the same steps and no part of the machine.
-/

namespace Intcode

/-- A record of a machine. -/
def machineRecord (level : Level) (message : String) (fields : List (String × String)) :
    Record where
  level := level
  target := "intcode::machine"
  message := message
  fields := fields

/-- An option, as it is written for debugging. -/
def optionText (word : Option Word) : String :=
  match word with
  | some word => "Some(" ++ word.text ++ ")"
  | none => "None"

/-- A run of the program starts. -/
def Program.startRecord (program : Program) : Record :=
  machineRecord .debug "run start" [("len", Decimal.ofNat program.size)]

namespace State

/-- The instruction at the pointer is executed. -/
def execRecord (state : State) (instruction : Instruction) : Record :=
  machineRecord .trace "exec" [("ip", Decimal.ofNat state.ip), ("instr", instruction.text)]

/-- A value was sent. -/
def outputRecord (state : State) (value : Word) : Record :=
  machineRecord .debug "output" [("ip", Decimal.ofNat state.ip), ("value", value.text)]

/-- The run has halted. -/
def haltRecord (state : State) : Record :=
  machineRecord .debug "run halted" [("steps", Decimal.ofNat state.steps),
    ("outputs", Decimal.ofNat state.outputs.size), ("last_output", optionText state.last)]

/-- The run has faulted. -/
def faultRecord (state : State) (fault : Fault) : Record :=
  machineRecord .warn "run faulted" [("ip", Decimal.ofNat state.ip),
    ("steps", Decimal.ofNat state.steps), ("err", fault.message)]

/-- What is logged before the instruction at the pointer is carried out, if there is one. -/
def attemptRecords (state : State) : List Record :=
  match state.memory.decode state.ip with
  | .ok instruction => [state.execRecord instruction]
  | .error _ => []

/-- What is logged once the instruction at the pointer has been carried out. -/
def successRecords (state : State) : List Record :=
  match state.next with
  | .ok (_, .send value) => [state.outputRecord value]
  | .ok (_, .internal _) | .ok (_, .receive _) | .error _ => []

end State

namespace Machine

/-- What the next step logs at once. The limit is checked before the instruction is decoded. -/
def attemptRecords (machine : Machine) : List Record :=
  if machine.state.halted ∨ machine.exhausted?.isSome then [] else machine.state.attemptRecords

/-- What is logged when a run stops for this reason. -/
def stopRecords (machine : Machine) : Stop → List Record
  | .halted => [machine.state.haltRecord]
  | .faulted fault => [machine.state.faultRecord fault]
  | .waiting => []

/-- The records shown while the machine goes on, behind those shown before. -/
def proceedLog (logger : Logger) : Nat → Machine → Array Record → Array Record
  | 0, _, before => before
  | fuel + 1, machine, before =>
    let attempted := before ++ logger.shown machine.attemptRecords
    let succeeded := logger.shown machine.state.successRecords
    match machine.step with
    | (after, .executed _) => proceedLog logger fuel after (attempted ++ succeeded)
    | (after, .stopped stop) => attempted ++ logger.shown (after.stopRecords stop)

/-- The records shown while the program is run from the start, behind those shown before. -/
def runLog (logger : Logger) (fuel : Nat) (machine : Machine) (before : Array Record) :
    Array Record :=
  machine.reset.proceedLog logger fuel (before ++ logger.shown [machine.program.startRecord])

end Machine

end Intcode
