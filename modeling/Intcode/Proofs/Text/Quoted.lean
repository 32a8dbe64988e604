import Intcode.Proofs.Text.Pieces
import Intcode.Text.Quoted

/-!
# Quoted text reads back

A reader of quoted text, such as the token that `Error::Parse` shows, needs no table of characters:
a backslash says that the next character is not meant as it stands, and a code point ends at its
brace. `Quoted.read?` reads one character and leaves the rest, and this is all that there is to it:
since every escape is read back whatever follows it, no two texts are written in the same way.

Results:
* `ofHex_toDigits`: hexadecimal digits read back.
* **`read?_escape`**: so does every character, in front of any text.
* `encode_injective`: different texts are quoted differently.
-/

namespace Intcode.Text.Quoted

/-! ## Hexadecimal -/

/-- How much a hexadecimal digit in lower case counts at the last place. -/
def hexValue (c : Char) : Nat := if c.isDigit then c.toNat - '0'.toNat else c.toNat - 'a'.toNat + 10

/-- The value of hexadecimal digits. -/
def ofHex (digits : List Char) : Nat := digits.foldl (fun n c => 16 * n + hexValue c) 0

theorem hexValue_digitChar {d : Nat} (h : d < 16) : hexValue d.digitChar = d := by
  revert d
  decide

theorem ofHex_concat (digits : List Char) (c : Char) :
    ofHex (digits ++ [c]) = 16 * ofHex digits + hexValue c := by
  simp [ofHex]

/-- **Hexadecimal digits read back.** -/
theorem ofHex_toDigits (n : Nat) : ofHex (Nat.toDigits 16 n) = n := by
  induction n using Nat.strongRecOn with
  | ind n ih =>
    by_cases hlt : n < 16
    · rw [Nat.toDigits_of_lt_base hlt, ← List.nil_append [n.digitChar], ofHex_concat,
        hexValue_digitChar hlt]
      exact Nat.zero_add n
    · have hsmaller : n / 16 < n := by omega
      have hlast : hexValue (n % 16).digitChar = n % 16 := hexValue_digitChar (by omega)
      rw [Nat.toDigits_of_base_le (by decide) (Nat.le_of_not_lt hlt), ofHex_concat, ih _ hsmaller,
        hlast]
      omega

/-- No digit is a brace. -/
theorem brace_not_mem_toDigits (n : Nat) : '\x7d' ∉ Nat.toDigits 16 n := by
  induction n using Nat.strongRecOn with
  | ind n ih =>
    by_cases hlt : n < 16
    · rw [Nat.toDigits_of_lt_base hlt]
      simp
    · have hsmaller : n / 16 < n := by omega
      rw [Nat.toDigits_of_base_le (by decide) (Nat.le_of_not_lt hlt)]
      simpa using ih _ hsmaller

/-! ## Reading -/

/-- The code point in front of a closing brace, and what stands behind the brace. -/
def readCodePoint (cs : List Char) : Char × List Char :=
  let digits := cs.takeWhile (· ≠ '\x7d')
  (Char.ofNat (ofHex digits), cs.drop (digits.length + 1))

/-- **The first character of an escaped text**, and the rest of the text. -/
def read? : List Char → Option (Char × List Char)
  | [] => none
  | '\\' :: '0' :: rest => some ('\x00', rest)
  | '\\' :: 't' :: rest => some ('\t', rest)
  | '\\' :: 'n' :: rest => some ('\n', rest)
  | '\\' :: 'r' :: rest => some ('\r', rest)
  | '\\' :: 'u' :: '\x7b' :: rest => some (readCodePoint rest)
  | '\\' :: c :: rest => some (c, rest)
  | c :: rest => some (c, rest)

theorem read?_of_ne {c : Char} (h : c ≠ '\\') (rest : List Char) :
    read? (c :: rest) = some (c, rest) := by
  simp [read?, h]

theorem read?_codePoint (c : Char) (rest : List Char) :
    read? (codePoint c ++ rest) = some (c, rest) := by
  have hdigits : (Nat.toDigits 16 c.toNat ++ '\x7d' :: rest).takeWhile (· ≠ '\x7d') =
      Nat.toDigits 16 c.toNat :=
    (span_append_cons (brace_not_mem_toDigits _) rest).1
  have hwritten : codePoint c ++ rest =
      '\\' :: 'u' :: '\x7b' :: (Nat.toDigits 16 c.toNat ++ '\x7d' :: rest) := by
    simp [codePoint]
  rw [hwritten, read?, readCodePoint]
  simp only [hdigits, ofHex_toDigits, Char.ofNat_toNat]
  rw [List.append_cons, List.drop_left' (by simp)]

/-- **An escaped character reads back**, whatever follows it. -/
theorem read?_escape (c : Char) (rest : List Char) : read? (escape c ++ rest) = some (c, rest) := by
  unfold escape
  split_ifs with hnul htab hfeed hreturn hmarked hhidden
  · rw [hnul]; rfl
  · rw [htab]; rfl
  · rw [hfeed]; rfl
  · rw [hreturn]; rfl
  · rcases hmarked with rfl | rfl <;> rfl
  · exact read?_codePoint c rest
  · exact read?_of_ne (fun h => hmarked (.inr h)) rest

/-- **Escaped texts are told apart**, being read one character at a time. -/
theorem flatMap_escape_injective : Function.Injective (List.flatMap escape) := by
  have hread (c : Char) (cs : List Char) :
      read? ((c :: cs).flatMap escape) = some (c, cs.flatMap escape) := by
    rw [List.flatMap_cons, read?_escape]
  intro s t h
  induction s generalizing t with
  | nil =>
    cases t with
    | nil => rfl
    | cons d t =>
      have hfirst := hread d t
      rw [← h] at hfirst
      cases hfirst
  | cons c s ih =>
    have hfirst := hread c s
    cases t with
    | nil =>
      rw [h] at hfirst
      cases hfirst
    | cons d t =>
      rw [h, hread] at hfirst
      obtain ⟨rfl, hrest⟩ := Prod.mk.inj (Option.some.inj hfirst)
      rw [ih hrest.symm]

/-- **Different texts are quoted differently.** -/
theorem encode_injective : Function.Injective encode := by
  intro s t h
  have hchars := String.ofList_injective h
  rw [List.cons_append, List.cons_append, List.cons.injEq, List.append_cancel_right_eq] at hchars
  exact String.toList_inj.mp (flatMap_escape_injective hchars.2)

end Intcode.Text.Quoted
