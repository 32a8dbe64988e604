import Intcode.Ending
import Intcode.Machine.State

/-!
# Networks of machines

Model of the machines that `run_chain` starts, each on a thread of its own, of the channels between
them, and of `root_fault`.

In a network, machine `j` sends what it outputs to machine `j + 1`. In a series the last machine's
output is discarded and nobody sends to the first; in a feedback loop the last sends to the
first. Each machine has one inbox, an unbounded channel that keeps the order of the values.

`fire? j` lets machine `j` execute one instruction, and gives `none` when it cannot: it has
ended, or it waits for a value while the machine before it is still running. The rules for the
ends of a channel are:

* a machine that halts hangs up on the machine after it, but its own inbox stays, so what is sent
  to it is still accepted;
* a machine that faults hangs up on both sides, so a later send to it faults the sender;
* a machine that wants a value from its empty inbox faults if the machine before it has ended, or
  if there is none.

Any order of firings is a possible run. `settle` fixes one: the machine that fired last goes on
as long as it can.
-/

namespace Intcode

/-- Who listens to the last machine (`Topology`). -/
inductive Topology where
  /-- Nobody. -/
  | series
  /-- The first machine. -/
  | feedback
deriving DecidableEq

namespace Chain

/-! ## Channels -/

/-- An unbounded channel: everything ever sent, and how much of it has been taken. -/
structure Channel where
  sent : Array Word
  taken : Nat := 0
deriving DecidableEq

namespace Channel

/-- The values not yet taken. -/
def pending (channel : Channel) : List Word := channel.sent.toList.drop channel.taken

/-- The next value. -/
def front? (channel : Channel) : Option Word := channel.sent[channel.taken]?

/-- The channel after its next value was taken. -/
def take (channel : Channel) : Channel := { channel with taken := channel.taken + 1 }

/-- The channel with one more value at its end. -/
def put (channel : Channel) (value : Word) : Channel :=
  { channel with sent := channel.sent.push value }

end Channel

/-! ## Nodes -/

/-- A machine in a network. -/
structure Node where
  state : State
  inbox : Channel
  /-- The fault that ended the machine. -/
  fault : Option Fault := none
deriving DecidableEq

namespace Node

/-- A machine about to start, with values waiting for it. -/
def fresh (program : Program) (seed : List Word) : Node where
  state := .fresh program
  inbox := { sent := seed.toArray }

/-- Has the machine neither halted nor faulted? -/
def isRunning (node : Node) : Bool := !node.state.halted && node.fault.isNone

/-- The machine ended by a fault. -/
def fail (node : Node) (fault : Fault) : Node := { node with fault := some fault }

/-- The machine after an `in` instruction took the next value of its inbox. -/
def accept (node : Node) (dest value : Word) : Node :=
  match node.state.destination dest with
  | .ok index => { node with state := node.state.received index value, inbox := node.inbox.take }
  | .error fault => { node with inbox := node.inbox.take, fault := some fault }

end Node

/-! ## Networks -/

/-- Machines in the order in which they are connected. -/
structure Network where
  topology : Topology
  nodes : List Node
deriving DecidableEq

namespace Network

/-- The machine that sends to machine `j`. -/
def feeder? (net : Network) (j : Nat) : Option Nat :=
  match net.topology with
  | .series => if j = 0 then none else some (j - 1)
  | .feedback => some ((j + net.nodes.length - 1) % net.nodes.length)

/-- The machine that machine `j` sends to. -/
def listener? (net : Network) (j : Nat) : Option Nat :=
  match net.topology with
  | .series => if j + 1 < net.nodes.length then some (j + 1) else none
  | .feedback => some ((j + 1) % net.nodes.length)

/-- Can machine `j` still be sent values? -/
def isFed (net : Network) (j : Nat) : Bool :=
  match net.feeder? j with
  | some u => net.nodes[u]?.any Node.isRunning
  | none => false

/-- Has machine `j` faulted, so that its inbox is gone? -/
def isDeaf (net : Network) (j : Nat) : Bool :=
  net.nodes[j]?.any fun node => node.fault.isSome

/-- The network with machine `j` replaced. -/
def put (net : Network) (j : Nat) (node : Node) : Network :=
  { net with nodes := net.nodes.set j node }

/-- The network with a value sent to machine `j`. -/
def deliver (net : Network) (j : Nat) (value : Word) : Network :=
  { net with
    nodes := net.nodes.modify j fun node => { node with inbox := node.inbox.put value } }

/-- Machine `j`, which is `node`, executes an `in` instruction. -/
def receive? (net : Network) (j : Nat) (node : Node) (dest : Word) : Option Network :=
  match node.inbox.front? with
  | some value => some (net.put j (node.accept dest value))
  | none =>
    if net.isFed j then none else some (net.put j (node.fail (.inputClosed node.state.ip)))

/-- Machine `j`, which is `node`, executes an `out` instruction. -/
def send (net : Network) (j : Nat) (node : Node) (value : Word) : Network :=
  let after := { node with state := node.state.sent value }
  match net.listener? j with
  | none => net.put j after
  | some k =>
    if net.isDeaf k then net.put j (node.fail (.outputClosed node.state.ip))
    else (net.put j after).deliver k value

/-- Machine `j` executes one instruction, if it can. -/
def fire? (net : Network) (j : Nat) : Option Network :=
  match net.nodes[j]? with
  | none => none
  | some node =>
    if node.isRunning then
      match node.state.next with
      | .error fault => some (net.put j (node.fail fault))
      | .ok (_, .internal effect) =>
        some (net.put j { node with state := node.state.perform effect })
      | .ok (_, .receive dest) => net.receive? j node dest
      | .ok (_, .send value) => some (net.send j node value)
    else none

/-! ## Running -/

/-- The machine that fires next, given the one that fired last, and the network afterwards. -/
def fireNext? (net : Network) (last : Nat) : Option (Nat × Network) :=
  match net.fire? last with
  | some after => some (last, after)
  | none => (List.range net.nodes.length).findSome? fun j => (net.fire? j).map (j, ·)

/-- Fires machines until none can fire, at most `fuel` times. -/
def settle : Nat → Nat → Network → Option Network
  | 0, _, _ => none
  | fuel + 1, last, net =>
    match net.fireNext? last with
    | none => some net
    | some (j, after) => settle fuel j after

/-- The fault to report: the first that no hang-up caused, else the first (`root_fault`). -/
def rootFault? (faults : List Fault) : Option Fault :=
  (faults.find? fun fault => !fault.isDisconnect) <|> faults.head?

/-- The last output of the last machine, once all have ended, unless one of them faulted: what
`run_chain` makes of the joined results. -/
def verdict (net : Network) : Ending (Option Word) :=
  if net.nodes.any Node.isRunning then .unfinished
  else
    match rootFault? (net.nodes.filterMap Node.fault) with
    | some fault => .faulted fault
    | none => .finished (net.nodes.getLast?.bind fun node => node.state.last)

end Network

end Chain

end Intcode
