import Intcode.Chain.Search
import Intcode.Machine.Log

/-!
# What chains log

Model of the records that `run_chain` makes, from the target `intcode::amplifier`, and of those that
its machines make, each within its span. `best_phase_sequence` makes none of its own.

Like its firings, the records of the machines can come in many orders. This is the order in which
`settle` fires them, with all machines started first.
-/

namespace Intcode

/-- A record of a chain. -/
def chainRecord (message : String) (fields : List (String × String)) : Record where
  level := .debug
  target := "intcode::amplifier"
  message := message
  fields := fields

/-- The record comes from machine `j` of a chain. -/
def Record.ofAmplifier (j : Nat) (record : Record) : Record := { record with amplifier := some j }

/-- The name of a topology. -/
def Topology.text : Topology → String
  | series => "Series"
  | feedback => "Feedback"

namespace Chain

/-- What is logged when the machine of a node has ended. -/
def Node.endRecords (node : Node) : List Record :=
  match node.fault with
  | some fault => [node.state.faultRecord fault]
  | none => if node.state.halted then [node.state.haltRecord] else []

/-- What machine `j` logs when it fires and the network becomes `after`. -/
def Network.fireRecords (net : Network) (j : Nat) (after : Network) : List Record :=
  match net.nodes[j]?, after.nodes[j]? with
  | some node, some fired =>
    let succeeded := if fired.fault.isNone then node.state.successRecords else []
    (node.state.attemptRecords ++ succeeded ++ fired.endRecords).map (.ofAmplifier j)
  | _, _ => []

/-- The records shown while machines are fired until none can fire, behind those shown before. -/
def Network.settleLog (logger : Logger) : Nat → Nat → Network → Array Record → Array Record
  | 0, _, _, before => before
  | fuel + 1, last, net, before =>
    match net.fireNext? last with
    | none => before
    | some (j, after) =>
      settleLog logger fuel j after (before ++ logger.shown (net.fireRecords j after))

/-- A chain starts. -/
def startRecord (chain : Chain) : Record :=
  chainRecord "chain start" [
    ("phases", "[" ++ ", ".intercalate (chain.phases.map Word.text) ++ "]"),
    ("signal", chain.signal.text), ("topology", chain.topology.text)]

/-- A chain has ended without a fault. -/
def finishRecord (last : Option Word) : Record :=
  chainRecord "chain finished" [("last", optionText last)]

/-- The records shown while a chain is run, behind those shown before. A chain without machines
logs nothing. -/
def runLog (logger : Logger) (fuel : Nat) (chain : Chain) (before : Array Record) :
    Array Record :=
  if chain.phases.isEmpty then before
  else
    let started := chain.startRecord ::
      (List.range chain.phases.length).map fun j => chain.program.startRecord.ofAmplifier j
    let settled := chain.wire.settleLog logger fuel 0 (before ++ logger.shown started)
    match chain.run fuel with
    | .finished last => settled ++ logger.shown [finishRecord last]
    | .faulted _ | .unfinished => settled

/-- The records shown while the chain is run with each of the given settings, up to the first run
that does not finish. -/
def searchLogFrom (logger : Logger) (fuel : Nat) (chain : Chain) (before : Array Record) :
    List (List Word) → Array Record
  | [] => before
  | phases :: rest =>
    let after := { chain with phases }.runLog logger fuel before
    match { chain with phases }.run fuel with
    | .finished _ => searchLogFrom logger fuel chain after rest
    | .faulted _ | .unfinished => after

/-- The records shown while the best ordering is searched for. -/
def searchLog (logger : Logger) (fuel : Nat) (chain : Chain) (before : Array Record) :
    Array Record :=
  searchLogFrom logger fuel chain before (orderings chain.phases)

end Chain

end Intcode
