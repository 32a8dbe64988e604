import Intcode.Ending
import Intcode.Inlet
import Intcode.Machine.State
import Intcode.Outlet

/-!
# Machines

Model of `Machine`: `step` with `execute`, `reset` and `run`. What these log is left to
`Intcode.Machine.Log`.

A `Machine` is a program with an inlet, an outlet, an optional limit on the number of
instructions, and the state of its run. `step` executes one instruction; `proceed` repeats it
until the machine stops, and is the loop of `run`, which starts over from the program.

A step on a halted machine does nothing. Otherwise the limit is checked first, then the
instruction is decoded and executed. A step that faults leaves the state as it was; the one
thing it can lose is a value already taken from the inlet by an `in` whose destination
turns out to be out of range.

A pull or a push that blocks does not return, and with it the step does not. The machine is
`waiting` then: it stays as it is, and somebody else has to act before it can go on.
-/

namespace Intcode

/-- A program, its inlet and outlet, and the state of its run. With its defaults it is what
`Machine::from_program` makes. -/
structure Machine where
  program : Program
  input : Inlet := .absent
  output : Outlet := .discard
  /-- How many instructions a run may execute (`step_limit`). -/
  limit : Option Nat := none
  state : State := .fresh program
deriving DecidableEq

/-- Why a machine does not go on. -/
inductive Stop where
  /-- It had halted already. -/
  | halted
  | faulted (fault : Fault)
  /-- It needs a value from a channel that is empty and still open, or has one for a channel that is
  full and still held. -/
  | waiting
deriving DecidableEq

/-- How a run ends that stops for this reason, `last` being its last output. A machine that waits
has not ended. -/
def Stop.ending (last : Option Word) : Stop → Ending (Option Word)
  | .halted => .finished last
  | .faulted fault => .faulted fault
  | .waiting => .unfinished

/-- What a step did (`Step`, or its error). -/
inductive Outcome where
  | executed (instruction : Instruction)
  | stopped (stop : Stop)
deriving DecidableEq

namespace Machine

/-- The limit, if the run has used it up. -/
def exhausted? (machine : Machine) : Option Nat :=
  machine.limit.filter fun limit => limit ≤ machine.state.steps

/-- The machine stopped by a fault. -/
def faulted (machine : Machine) (fault : Fault) : Machine × Outcome :=
  (machine, .stopped (.faulted fault))

/-- Takes a value from the inlet and stores it: `execute` on an `in`. -/
def receive (machine : Machine) (instruction : Instruction) (dest : Word) : Machine × Outcome :=
  match machine.input.pull with
  | .disconnected => machine.faulted (.inputClosed machine.state.ip)
  | .blocked => (machine, .stopped .waiting)
  | .value value input =>
    match machine.state.destination dest with
    | .ok index =>
      ({ machine with input, state := machine.state.received index value }, .executed instruction)
    | .error fault => { machine with input }.faulted fault

/-- Offers a value to the outlet and logs it: `execute` on an `out`. -/
def send (machine : Machine) (instruction : Instruction) (value : Word) : Machine × Outcome :=
  match machine.output.push value with
  | .accepted output =>
    ({ machine with output, state := machine.state.sent value }, .executed instruction)
  | .refused output => { machine with output }.faulted (.outputClosed machine.state.ip)
  | .blocked => (machine, .stopped .waiting)

/-- Executes the instruction at the pointer (`decode`, then `execute`). -/
def execute (machine : Machine) : Machine × Outcome :=
  match machine.state.next with
  | .error fault => machine.faulted fault
  | .ok (instruction, .internal effect) =>
    ({ machine with state := machine.state.perform effect }, .executed instruction)
  | .ok (instruction, .receive dest) => machine.receive instruction dest
  | .ok (instruction, .send value) => machine.send instruction value

/-- Executes one instruction, unless the machine has halted or its limit is used up
(`Machine::step`). -/
def step (machine : Machine) : Machine × Outcome :=
  if machine.state.halted then (machine, .stopped .halted)
  else
    match machine.exhausted? with
    | some limit => machine.faulted (.stepLimit limit)
    | none => machine.execute

/-- The machine at the start of a run, its inlet and outlet as they are (`Machine::reset`). -/
def reset (machine : Machine) : Machine := { machine with state := .fresh machine.program }

/-- Steps until the machine stops, at most `fuel` times; without a reason to stop, the fuel was
not enough. -/
def proceed : Nat → Machine → Machine × Option Stop
  | 0, machine => (machine, none)
  | fuel + 1, machine =>
    match machine.step with
    | (after, .executed _) => proceed fuel after
    | (after, .stopped stop) => (after, some stop)

/-- Runs the program from the start (`Machine::run`); the result is its last output. -/
def run (fuel : Nat) (machine : Machine) : Machine × Ending (Option Word) :=
  match machine.reset.proceed fuel with
  | (after, some .halted) => (after, .finished after.state.last)
  | (after, some (.faulted fault)) => (after, .faulted fault)
  | (after, some .waiting) => (after, .unfinished)
  | (after, none) => (after, .unfinished)

/-- Takes up to `count` steps and lists the instructions executed with their addresses, and the
reason for stopping before the count. -/
def trace : Nat → Machine → Machine × List (Nat × Instruction) × Option Stop
  | 0, machine => (machine, [], none)
  | count + 1, machine =>
    match machine.step with
    | (after, .executed instruction) =>
      let (final, rest, stop) := trace count after
      (final, (machine.state.ip, instruction) :: rest, stop)
    | (after, .stopped stop) => (after, [], some stop)

end Machine

end Intcode
