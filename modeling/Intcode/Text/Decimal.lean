/-!
# Decimal notation of integers

How integers are displayed, and how `Program::parse` and `Args` read them. `ofNat` and `ofInt` write
a number with the fewest digits, a minus sign in front of a negative one. `nat?` and `int?` read the
looser notation that sources and arguments use: one optional sign, then at least one ASCII digit,
leading zeros allowed.

* `nat?_ofNat`, `int?_ofInt`: what is written reads back.
-/

namespace Intcode.Decimal

/-! ## Writing -/

/-- The digits of `n`, without leading zeros. -/
def ofNat (n : Nat) : String :=
  String.ofList (Nat.toDigits 10 n)

/-- The digits of `n`, after a minus sign if `n` is negative. -/
def ofInt : Int → String
  | .ofNat n => ofNat n
  | .negSucc n => "-" ++ ofNat (n + 1)

/-! ## Reading -/

/-- The value of a nonempty run of ASCII digits. -/
def nat? (cs : List Char) : Option Nat :=
  if cs ≠ [] ∧ cs.all Char.isDigit then some (Nat.ofDigitChars 10 cs 0) else none

/-- The value of digits that may follow one plus sign. -/
def unsigned? : List Char → Option Nat
  | '+' :: cs => nat? cs
  | cs => nat? cs

/-- The value of digits that may follow one sign. -/
def int? : List Char → Option Int
  | '-' :: cs => (nat? cs).map fun n => -(n : Int)
  | cs => (unsigned? cs).map fun n => (n : Int)

/-! ## Reading what was written -/

theorem nat?_ofNat (n : Nat) : nat? (ofNat n).toList = some n := by
  have hd : (Nat.toDigits 10 n).all Char.isDigit = true :=
    List.all_eq_true.mpr fun _ hc => Nat.isDigit_of_mem_toDigits (by decide) (by decide) hc
  simp [nat?, ofNat, hd, Nat.toDigits_ne_nil, Nat.ofDigitChars_ten_toDigits]

/-- No digit is a sign. -/
theorem ne_sign_of_isDigit {c : Char} (h : c.isDigit = true) : c ≠ '-' ∧ c ≠ '+' := by
  constructor <;> rintro rfl <;> simp at h

/-- Without a sign in front, the three readers agree. -/
theorem int?_eq_nat? {c : Char} {cs : List Char} (h : c.isDigit = true) :
    int? (c :: cs) = (nat? (c :: cs)).map fun n => (n : Int) := by
  obtain ⟨hm, hp⟩ := ne_sign_of_isDigit h
  simp [int?, unsigned?, hm, hp]

theorem int?_ofInt (n : Int) : int? (ofInt n).toList = some n := by
  cases n with
  | ofNat n =>
    obtain ⟨c, cs, hc⟩ := List.exists_cons_of_ne_nil (Nat.toDigits_ne_nil (n := n) (b := 10))
    have hd : c.isDigit = true :=
      Nat.isDigit_of_mem_toDigits (b := 10) (n := n) (by decide) (by decide) (by simp [hc])
    have hn : (ofNat n).toList = c :: cs := by simp [ofNat, hc]
    simp only [ofInt]
    rw [hn, int?_eq_nat? hd, ← hn, nat?_ofNat]
    rfl
  | negSucc n =>
    have hn : ("-" ++ ofNat (n + 1)).toList = '-' :: (ofNat (n + 1)).toList := by simp
    simp only [ofInt]
    rw [hn]
    simp only [int?, nat?_ofNat]
    rfl

end Intcode.Decimal
