import Intcode.Text.Decimal

/-!
# Machine words

A `Word` is an integer from `-2^63` to `2^63 - 1`: a cell of `Memory`, a value at a port. Arithmetic
happens in `Int`, and `ofInt?` brings a result back, refusing one that no word can hold, as
`checked_add` and `checked_mul` do: there is no silent wrap-around. `wrap` is the one exception, the
cast of an address to a word in `decode`.

* `ofInt?_eq_some_iff`: a word is found exactly for the integers that words hold.
* `ofChars?_text`: the decimal text of a word reads back.
-/

namespace Intcode

/-- The number of nonnegative words, `2^63`. -/
def Word.bound : Int := 0x8000000000000000

/-- A signed integer of 64 bits. -/
structure Word where
  /-- The integer itself. -/
  val : Int
  neg_bound_le : -Word.bound ≤ val
  lt_bound : val < Word.bound
deriving DecidableEq

namespace Word

theorem ext {a b : Word} (h : a.val = b.val) : a = b := by
  cases a; cases b; cases h; rfl

/-- The word that holds `n`, if there is one. -/
def ofInt? (n : Int) : Option Word :=
  if h : -bound ≤ n ∧ n < bound then some ⟨n, h.1, h.2⟩ else none

/-- The word congruent to `n` modulo `2^64`. -/
def wrap (n : Nat) : Word where
  val := Int.bmod n 0x10000000000000000
  neg_bound_le := by
    have := Int.le_bmod (x := n) (m := 0x10000000000000000) (by decide)
    simp only [bound]
    omega
  lt_bound := by
    have := Int.bmod_lt (x := n) (m := 0x10000000000000000) (by decide)
    simp only [bound]
    omega

instance (n : Nat) : OfNat Word n := ⟨wrap n⟩

instance : Inhabited Word := ⟨0⟩

/-- One for true, zero for false: the flag that a comparison stores. -/
def ofBool (b : Bool) : Word := if b then 1 else 0

/-- The sum, unless it overflows (`checked_add`). -/
def add? (a b : Word) : Option Word := ofInt? (a.val + b.val)

/-- The product, unless it overflows (`checked_mul`). -/
def mul? (a b : Word) : Option Word := ofInt? (a.val * b.val)

/-- A nonnegative word as an address: the conversion in `Memory::index` and `jump_target`. -/
def toAddress? (a : Word) : Option Nat :=
  if 0 ≤ a.val then some a.val.toNat else none

/-- The decimal text of a word. -/
def text (a : Word) : String := Decimal.ofInt a.val

/-- Reads an optionally signed decimal that a word can hold. -/
def ofChars? (cs : List Char) : Option Word := (Decimal.int? cs).bind ofInt?

/-! ## Lemmas -/

theorem ofInt?_eq_some_iff {n : Int} {a : Word} : ofInt? n = some a ↔ a.val = n := by
  unfold ofInt?
  split
  · exact ⟨fun h => by cases h; rfl, fun h => congrArg some (ext h.symm)⟩
  · rename_i hn
    exact ⟨fun h => (by cases h), fun h => absurd ⟨h ▸ a.neg_bound_le, h ▸ a.lt_bound⟩ hn⟩

theorem ofInt?_val (a : Word) : ofInt? a.val = some a := ofInt?_eq_some_iff.mpr rfl

theorem ofChars?_text (a : Word) : ofChars? a.text.toList = some a := by
  simp [ofChars?, text, Decimal.int?_ofInt, ofInt?_val]

end Word

end Intcode
