import Intcode.Chain.Network

/-!
# Chains of amplifiers

Model of `run_chain` and `wire`.

A chain runs one program on several machines, one for each phase setting. Every machine first
finds its own setting in its inbox; the first machine then finds the initial signal, and the
others what their neighbours send. The signal of the chain is the last output of the last
machine. A chain without settings gives no signal.
-/

namespace Intcode

/-- A chain to be run: the arguments of `run_chain`. -/
structure Chain where
  program : Program
  phases : List Word
  signal : Word := 0
  topology : Topology := .series
deriving DecidableEq

namespace Chain

/-- The machines of a chain before their first step. -/
def nodes (program : Program) (signal : Word) : List Word → List Node
  | [] => []
  | first :: rest =>
    .fresh program [first, signal] :: rest.map fun phase => .fresh program [phase]

/-- The network of a chain before its first step (`wire`). -/
def wire (chain : Chain) : Network where
  topology := chain.topology
  nodes := nodes chain.program chain.signal chain.phases

/-- The signal of a chain (`run_chain`). -/
def run (fuel : Nat) (chain : Chain) : Ending (Option Word) :=
  match chain.wire.settle fuel 0 with
  | some net => net.verdict
  | none => .unfinished

end Chain

end Intcode
