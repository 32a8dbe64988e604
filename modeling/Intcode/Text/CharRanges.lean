/-!
# Sets of characters

A `CharRanges` is a set of code points given by closed ranges, the form in which character
properties are tabulated.
-/

namespace Intcode.Text

/-- Closed ranges of code points. -/
abbrev CharRanges := List (Nat × Nat)

/-- Does the code point of `c` lie in one of the ranges? -/
def CharRanges.contains (ranges : CharRanges) (c : Char) : Bool :=
  ranges.any fun (first, last) => first ≤ c.toNat && c.toNat ≤ last

end Intcode.Text
