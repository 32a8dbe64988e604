import Intcode.Chain
import Intcode.Orderings

/-!
# Searching for the best phase settings

Model of `best_phase_sequence`. `Chain.search` runs a chain with every ordering of its phase
settings and keeps the one with the greatest signal; of several with that signal, the one that comes
first in `orderings`. An ordering without a signal is passed over, one that faults ends the search
with its fault.
-/

namespace Intcode.Chain

/-- A signal and the settings that gave it. -/
structure Best where
  signal : Word
  phases : List Word
deriving DecidableEq

/-- The better of what was found before and a new signal; on a tie the earlier one stays. -/
def Best.update (best : Option Best) (signal : Word) (phases : List Word) : Best :=
  match best with
  | none => ⟨signal, phases⟩
  | some earlier => if earlier.signal.val < signal.val then ⟨signal, phases⟩ else earlier

/-- Runs the chain with each of the given settings, having found `best` before: the loop of
`best_phase_sequence`. -/
def searchFrom (fuel : Nat) (chain : Chain) (best : Option Best) :
    List (List Word) → Ending (Option Best)
  | [] => .finished best
  | phases :: rest =>
    match { chain with phases }.run fuel with
    | .finished none => searchFrom fuel chain best rest
    | .finished (some signal) => searchFrom fuel chain (some (Best.update best signal phases)) rest
    | .faulted fault => .faulted fault
    | .unfinished => .unfinished

/-- The best ordering of a chain's phase settings (`best_phase_sequence`); `fuel` bounds each single
run. -/
def search (fuel : Nat) (chain : Chain) : Ending (Option Best) :=
  searchFrom fuel chain none (orderings chain.phases)

end Intcode.Chain
