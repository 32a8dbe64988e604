import Intcode.Word
import Mathlib.Data.List.Induction
import Mathlib.Data.Nat.Digits.Defs

/-!
# Numerals

`Decimal.Numeral` and `Decimal.Spells` say which texts stand for numbers, and for which: digits
`0` to `9`, at least one of them, are the number that they add up to by their places, and one sign
may stand in front. Readers of numbers are compared with this grammar.

Results:
* `nat?_eq_some_iff`, **`int?_eq_some_iff`**: the readers accept the grammar and nothing else.
* `Word.ofChars?_eq_some_iff`: a word is read off the spellings of its value.
* `isDigit_of_mem_ofNat`, `Word.mem_text`: the characters that written numbers are made of.
-/

namespace Intcode

namespace Decimal

/-- A digit is one of the ten characters from `0` to `9`. -/
def IsDigit (c : Char) : Prop := '0' ≤ c ∧ c ≤ '9'

instance (c : Char) : Decidable (IsDigit c) := inferInstanceAs (Decidable (_ ∧ _))

/-- How much a digit counts at the last place. -/
def digitValue (c : Char) : Nat := c.toNat - '0'.toNat

/-- **Digits and the number that they stand for**, the digit at the last place counting once. -/
structure Numeral (digits : List Char) (n : Nat) : Prop where
  ne_nil : digits ≠ []
  isDigit : ∀ c ∈ digits, IsDigit c
  value_eq : n = Nat.ofDigits 10 (digits.reverse.map digitValue)

/-- **An integer spelled in decimal**: digits, after at most one sign. -/
inductive Spells : List Char → Int → Prop where
  | plain {digits : List Char} {n : Nat} (h : Numeral digits n) : Spells digits n
  | plus {digits : List Char} {n : Nat} (h : Numeral digits n) : Spells ('+' :: digits) n
  | minus {digits : List Char} {n : Nat} (h : Numeral digits n) : Spells ('-' :: digits) (-n)

/-! ## Reading -/

theorem isDigit_iff {c : Char} : c.isDigit = true ↔ IsDigit c := by
  rw [Char.isDigit_iff_toNat]
  exact Iff.rfl

/-- Adding up from the left is adding up by places. -/
theorem ofDigitChars_eq (digits : List Char) :
    Nat.ofDigitChars 10 digits 0 = Nat.ofDigits 10 (digits.reverse.map digitValue) := by
  induction digits using List.reverseRecOn with
  | nil => rfl
  | append_singleton digits c ih =>
    have hlast : Nat.ofDigitChars 10 (digits ++ [c]) 0 =
        10 * Nat.ofDigitChars 10 digits 0 + digitValue c := by
      rw [Nat.ofDigitChars_append, Nat.ofDigitChars_cons, Nat.ofDigitChars_nil, digitValue]
    rw [hlast, ih, List.reverse_concat, List.map_cons, Nat.ofDigits_cons, Nat.add_comm]

/-- **The reader of digits accepts numerals and nothing else.** -/
theorem nat?_eq_some_iff {cs : List Char} {n : Nat} : nat? cs = some n ↔ Numeral cs n := by
  have hdigits : cs.all Char.isDigit = true ↔ ∀ c ∈ cs, IsDigit c := by
    simp only [List.all_eq_true, isDigit_iff]
  rw [nat?, Option.ite_none_right_eq_some, hdigits, Option.some.injEq, ofDigitChars_eq]
  constructor
  · rintro ⟨⟨hne, hall⟩, hvalue⟩
    exact ⟨hne, hall, hvalue.symm⟩
  · rintro ⟨hne, hall, hvalue⟩
    exact ⟨⟨hne, hall⟩, hvalue.symm⟩

/-- **The reader of integers accepts spellings and nothing else.** -/
theorem int?_eq_some_iff {cs : List Char} {k : Int} : int? cs = some k ↔ Spells cs k := by
  constructor
  · intro h
    unfold int? at h
    split at h
    · obtain ⟨_, hcast, rfl⟩ := Option.map_eq_some_iff.mp h
      obtain ⟨n, hn, ⟨⟩⟩ := Option.bind_eq_some_iff.mp hcast
      exact .minus (nat?_eq_some_iff.mp hn)
    · obtain ⟨_, hcast, rfl⟩ := Option.map_eq_some_iff.mp h
      obtain ⟨n, hn, ⟨⟩⟩ := Option.bind_eq_some_iff.mp hcast
      unfold unsigned? at hn
      split at hn
      · exact .plus (nat?_eq_some_iff.mp hn)
      · exact .plain (nat?_eq_some_iff.mp hn)
  · intro h
    cases h with
    | @plain digits n h =>
      obtain ⟨c, rest, rfl⟩ := List.exists_cons_of_ne_nil h.ne_nil
      have hdigit : c.isDigit = true := isDigit_iff.mpr (h.isDigit c List.mem_cons_self)
      rw [int?_eq_nat? hdigit, nat?_eq_some_iff.mpr h]
      rfl
    | plus h =>
      rw [int?, unsigned?, nat?_eq_some_iff.mpr h]
      · rfl
      · simp
    | minus h =>
      rw [int?, nat?_eq_some_iff.mpr h]
      rfl

/-! ## Writing -/

theorem isDigit_of_mem_ofNat {n : Nat} {c : Char} (h : c ∈ (ofNat n).toList) :
    c.isDigit = true := by
  rw [ofNat, String.toList_ofList] at h
  exact Nat.isDigit_of_mem_toDigits (by decide) (by decide) h

end Decimal

namespace Word

/-- **A word is read off the spellings of its value.** -/
theorem ofChars?_eq_some_iff {cs : List Char} {a : Word} :
    ofChars? cs = some a ↔ Decimal.Spells cs a.val := by
  rw [ofChars?, Option.bind_eq_some_iff]
  constructor
  · rintro ⟨n, hn, ha⟩
    rw [ofInt?_eq_some_iff.mp ha]
    exact Decimal.int?_eq_some_iff.mp hn
  · intro h
    exact ⟨a.val, Decimal.int?_eq_some_iff.mpr h, ofInt?_val a⟩

theorem spells_text (a : Word) : Decimal.Spells a.text.toList a.val :=
  ofChars?_eq_some_iff.mp (ofChars?_text a)

theorem text_ne_nil (a : Word) : a.text.toList ≠ [] := by
  intro h
  have hread := ofChars?_text a
  rw [h] at hread
  cases hread

/-- Words that are read off their texts come back in their order. -/
theorem mapM_ofChars?_text (words : List Word) :
    (words.map fun word => word.text.toList).mapM ofChars? = some words := by
  rw [List.mapM_map, funext (f := ofChars? ∘ _) ofChars?_text]
  exact (List.mapM_pure (f := id)).trans (congrArg some words.map_id)

/-- A word is written with digits and a minus sign. -/
theorem mem_text {a : Word} {c : Char} (h : c ∈ a.text.toList) : c.isDigit = true ∨ c = '-' := by
  rw [text] at h
  cases hval : a.val with
  | ofNat n =>
    rw [hval] at h
    exact .inl (Decimal.isDigit_of_mem_ofNat h)
  | negSucc n =>
    rw [hval, Decimal.ofInt, String.toList_append, List.mem_append] at h
    rcases h with h | h
    · exact .inr (by simpa using h)
    · exact .inl (Decimal.isDigit_of_mem_ofNat h)

/-- No other character is used, be it a separator or a blank. -/
theorem not_mem_text {c : Char} (hdigit : c.isDigit = false) (hminus : c ≠ '-') (a : Word) :
    c ∉ a.text.toList := by
  intro hmem
  rcases mem_text hmem with h | h
  · simp [hdigit] at h
  · exact hminus h

end Word

end Intcode
