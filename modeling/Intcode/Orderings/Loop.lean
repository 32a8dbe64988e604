import Intcode.Orderings

/-!
# The loop that lists orderings

Model of `permutations`, iteration by iteration. `orderings` takes one exchange to be one step:
`tick?` finds the counter that goes up and lets all full ones below it start over. The loop of
`permutations` has a position (`i`) that moves up over the full counters, one at a time, and goes
back to the first when it has found one that is not full.
-/

namespace Intcode.Orderings

variable {α : Type}

/-- The loop of `permutations` before an iteration. -/
structure Loop (α : Type) where
  /-- The counter to be looked at (`i`). -/
  position : Nat := 1
  counters : List Nat
  /-- The ordering listed last. -/
  current : List α
  /-- All orderings listed so far (`out`). -/
  listed : List (List α)
deriving DecidableEq

namespace Loop

/-- The loop before its first iteration: the list itself is listed already. -/
def start (items : List α) : Loop α where
  counters := List.replicate items.length 0
  current := items
  listed := [items]

/-- The counter at the position. -/
def count (loop : Loop α) : Nat := loop.counters.getD loop.position 0

/-- The position to exchange with (`swap_with`). -/
def partner (loop : Loop α) : Nat := (Tick.mk loop.position loop.count []).partner

/-- The counter at the position goes up: another ordering is listed, and the position goes back. -/
def swap (loop : Loop α) : Loop α where
  position := 1
  counters := loop.counters.set loop.position (loop.count + 1)
  current := exchange loop.current loop.partner loop.position
  listed := loop.listed ++ [exchange loop.current loop.partner loop.position]

/-- The counter at the position starts over, and the position moves up. -/
def carry (loop : Loop α) : Loop α :=
  { loop with
    position := loop.position + 1
    counters := loop.counters.set loop.position 0 }

/-- One iteration; none if the position has moved past the last counter. -/
def next? (loop : Loop α) : Option (Loop α) :=
  if loop.position < loop.current.length then
    some (if loop.count < loop.position then loop.swap else loop.carry)
  else none

/-- The loop after a number of iterations, unless it has ended before. -/
def after : Nat → Loop α → Option (Loop α)
  | 0, loop => some loop
  | count + 1, loop => (loop.after count).bind next?

end Loop

end Intcode.Orderings
