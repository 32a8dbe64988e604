import Intcode.Fault

/-!
# How a bounded run ends

What a run comes to, be it of `Machine::run`, `run_chain` or `best_phase_sequence`, given a number
of steps as fuel. If that is enough, the run has a result or a fault; if not, it is `unfinished`,
which says nothing about what more fuel would give. A run that waits, for a value that nobody will
send or for room that nobody will make, is unfinished with any fuel.
-/

namespace Intcode

/-- The end of a bounded run with results in `α`. -/
inductive Ending (α : Type) where
  | finished (result : α)
  | faulted (fault : Fault)
  | unfinished
deriving DecidableEq

end Intcode
