/-!
# All orderings of a list

Model of `permutations`. `orderings` lists the rearrangements of a list so that each comes from the
one before by one exchange. A counter stands at every position; the counter at position `i` runs
from `0` to `i`, so together they count in the factorial number system. Advancing the counters by
one finds the lowest position whose counter is not yet full; that position and the count it had
determine the exchange. `Intcode.Orderings.Loop` has the iterations of `permutations` one by one.
-/

namespace Intcode

namespace Orderings

/-- The counters advanced by one. -/
structure Tick where
  /-- The position whose counter went up. -/
  position : Nat
  /-- The count it had. -/
  count : Nat
  /-- All counters afterwards. -/
  counters : List Nat
deriving DecidableEq

/-- Advances counters whose first stands at `position`: full ones start over and carry. If all
are full, there is no next count. -/
def tick? (position : Nat) : List Nat → Option Tick
  | [] => none
  | count :: rest =>
    if count < position then some ⟨position, count, (count + 1) :: rest⟩
    else (tick? (position + 1) rest).map fun tick => { tick with counters := 0 :: tick.counters }

/-- The position to exchange with: the first for an even position, the counted one for an odd one
(`swap_with`). -/
def Tick.partner (tick : Tick) : Nat := if tick.position % 2 = 0 then 0 else tick.count

variable {α : Type}

/-- The list with two of its elements exchanged. -/
def exchange (items : List α) (i j : Nat) : List α :=
  match items[i]?, items[j]? with
  | some a, some b => (items.set i b).set j a
  | _, _ => items

/-- The next `bound` orderings, beginning with `current`, or fewer if the counters are full
before. -/
def listFrom : Nat → List Nat → List α → List (List α)
  | 0, _, _ => []
  | bound + 1, counters, current =>
    match tick? 0 counters with
    | none => [current]
    | some tick =>
      current :: listFrom bound tick.counters (exchange current tick.partner tick.position)

/-- The number of orderings of `n` items. -/
def count : Nat → Nat
  | 0 => 1
  | n + 1 => (n + 1) * count n

end Orderings

/-- All orderings of a list, the list itself first. -/
def orderings {α : Type} (items : List α) : List (List α) :=
  Orderings.listFrom (Orderings.count items.length) (List.replicate items.length 0) items

end Intcode
