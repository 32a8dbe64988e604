import Intcode.Text.CharRanges

/-!
# Blank characters and trimming

Model of the trimming in `Program::parse`. `isBlank` is the property `White_Space` of Unicode.
`trim p` removes the characters that satisfy `p` from both ends of a text and keeps those inside.
-/

namespace Intcode.Text

/-- Code points with the property `White_Space`. -/
def blank : CharRanges :=
  [(0x9, 0xd), (0x20, 0x20), (0x85, 0x85), (0xa0, 0xa0), (0x1680, 0x1680), (0x2000, 0x200a),
  (0x2028, 0x2029), (0x202f, 0x202f), (0x205f, 0x205f), (0x3000, 0x3000)]

/-- Is the character white space? -/
def isBlank (c : Char) : Bool := blank.contains c

/-- The text without the characters satisfying `p` at its two ends. -/
def trim (p : Char → Bool) (cs : List Char) : List Char :=
  ((cs.dropWhile p).reverse.dropWhile p).reverse

/-- A text that neither starts nor ends with a character satisfying `p` is left alone. -/
theorem trim_eq_self {p : Char → Bool} {cs : List Char} (h : ∀ c ∈ cs, p c = false) :
    trim p cs = cs := by
  have keep : ∀ l : List Char, (∀ c ∈ l, p c = false) → l.dropWhile p = l
    | [], _ => rfl
    | c :: l, hl => by simp [hl c List.mem_cons_self]
  unfold trim
  rw [keep cs h, keep cs.reverse (fun c hc => h c (List.mem_reverse.mp hc)), List.reverse_reverse]

end Intcode.Text
