import Intcode.Program
import Intcode.Proofs.Text.Numeral
import Intcode.Proofs.Text.Pieces

/-!
# The grammar of sources

`Program::parse` by a grammar. The tokens of a source are the texts between its commas, each
stripped of white space at both ends (`Tokens`). A token is good if it spells an integer from
`-2^63` to `2^63 - 1` (`IsWord`). A source is a program if all of its tokens are good, and otherwise
it is rejected with the first one that is not (`FirstBad`).

Results:
* `tokens_iff`: the reader works on the tokens, although it strips the source before it cuts it.
* `readPieces_eq_ok_iff`, `readPieces_eq_error_iff`: what is read from a list of tokens.
* **`parse_accepts_its_grammar`**: a source is accepted and rejected as just said, and white space
  around its tokens does not matter.
-/

namespace Intcode

section
variable {α β : Type} {x : Except Fault α} {f : α → β}

theorem map_eq_ok_iff {result : β} :
    x.map f = .ok result ↔ ∃ value, x = .ok value ∧ f value = result := by
  cases x with
  | error fault => exact ⟨nofun, fun ⟨_, h, _⟩ => nomatch h⟩
  | ok value => simp [Except.map]

theorem map_eq_error_iff {fault : Fault} : x.map f = .error fault ↔ x = .error fault := by
  cases x <;> simp [Except.map]

end

namespace Program

/-- **The tokens of a source**: the pieces between its commas, stripped of white space. -/
def Tokens (source : String) (tokens : List (List Char)) : Prop :=
  ∃ raws, Text.Cuts ',' source.toList raws ∧
    List.Forall₂ (Text.Strips Text.isBlank) raws tokens

/-- **The token spells an integer that fits into 64 bits.** -/
def IsWord (token : List Char) : Prop :=
  ∃ n : Int, Decimal.Spells token n ∧ -2 ^ 63 ≤ n ∧ n ≤ 2 ^ 63 - 1

/-- The token at this index, counted from zero, is bad, and those before it are good. -/
structure FirstBad (tokens : List (List Char)) (index : Nat) (token : List Char) : Prop where
  getElem?_eq : tokens[index]? = some token
  not_isWord : ¬ IsWord token
  isWord_of_lt : ∀ j < index, ∀ earlier, tokens[j]? = some earlier → IsWord earlier

/-! ## Tokens -/

theorem isBlank_comma : Text.isBlank ',' = false := by decide

theorem forall₂_strips_iff {raws tokens : List (List Char)} :
    List.Forall₂ (Text.Strips Text.isBlank) raws tokens ↔
      raws.map (Text.trim Text.isBlank) = tokens := by
  have htrim : Text.Strips Text.isBlank = fun raw token => Text.trim Text.isBlank raw = token := by
    funext raw token
    exact propext Text.trim_eq_iff.symm
  rw [htrim, ← List.forall₂_map_left_iff, List.forall₂_eq_eq_eq]

/-- **The reader works on the tokens**, although it strips the source before it cuts it. -/
theorem pieces_eq (source : String) :
    pieces source = (source.toList.splitOn ',').map (Text.trim Text.isBlank) :=
  Text.map_trim_splitOn_trim isBlank_comma source.toList

theorem tokens_iff {source : String} {tokens : List (List Char)} :
    Tokens source tokens ↔ pieces source = tokens := by
  simp only [Tokens, Text.cuts_iff, forall₂_strips_iff, exists_eq_left, pieces_eq]

/-- White space around the pieces of a source does not change its tokens. -/
theorem pieces_of_pads {source : String} {raws padded : List (List Char)}
    (hcuts : Text.Cuts ',' source.toList raws)
    (hpads : List.Forall₂ (Text.Pads Text.isBlank) raws padded) :
    pieces (String.ofList ([','].intercalate padded)) = pieces source := by
  have hpadded := Text.cuts_iff.mp (hcuts.pads isBlank_comma hpads)
  rw [pieces_eq, pieces_eq, String.toList_ofList, ← hpadded, ← Text.cuts_iff.mp hcuts]
  exact Text.map_trim_of_pads hpads

/-! ## Reading tokens -/

theorem isWord_iff {token : List Char} :
    IsWord token ↔ ∃ word, Word.ofChars? token = some word := by
  simp only [Word.ofChars?_eq_some_iff]
  constructor
  · rintro ⟨n, hspells, hle, hlt⟩
    refine ⟨⟨n, ?_, ?_⟩, hspells⟩ <;> simp only [Word.bound] <;> omega
  · rintro ⟨word, hspells⟩
    have hle := word.neg_bound_le
    have hlt := word.lt_bound
    simp only [Word.bound] at hle hlt
    exact ⟨word.val, hspells, by omega, by omega⟩

/-- A good token is read, and the reader goes on. -/
theorem readPieces_of_some {token : List Char} {word : Word} {rest : List (List Char)}
    (h : Word.ofChars? token = some word) (index : Nat) :
    readPieces index (token :: rest) = (readPieces (index + 1) rest).map (word :: ·) := by
  rw [readPieces, h]

/-- A bad token ends it. -/
theorem readPieces_of_none {token : List Char} {rest : List (List Char)}
    (h : Word.ofChars? token = none) (index : Nat) :
    readPieces index (token :: rest) = .error (.parse index (String.ofList token)) := by
  rw [readPieces, h]

/-- **Tokens are read exactly if all of them spell words**, and then these words are read. -/
theorem readPieces_eq_ok_iff {index : Nat} {tokens : List (List Char)} {words : List Word} :
    readPieces index tokens = .ok words ↔
      List.Forall₂ (fun token (word : Word) => Decimal.Spells token word.val) tokens words := by
  simp only [← Word.ofChars?_eq_some_iff]
  induction tokens generalizing index words with
  | nil => simp [readPieces, eq_comm]
  | cons token rest ih =>
    cases h : Word.ofChars? token with
    | none =>
      rw [readPieces_of_none h, List.forall₂_cons_left_iff]
      simp [h]
    | some word =>
      rw [readPieces_of_some h, map_eq_ok_iff]
      constructor
      · rintro ⟨words, hrest, rfl⟩
        exact .cons h (ih.mp hrest)
      · intro hall
        obtain ⟨first, words, hfirst, hrest, rfl⟩ := List.forall₂_cons_left_iff.mp hall
        obtain rfl : word = first := Option.some.inj (h.symm.trans hfirst)
        exact ⟨words, ih.mpr hrest, rfl⟩

theorem firstBad_zero_iff {first token : List Char} {rest : List (List Char)} :
    FirstBad (first :: rest) 0 token ↔ token = first ∧ ¬ IsWord first := by
  constructor
  · rintro ⟨⟨⟩, hbad, -⟩
    exact ⟨rfl, hbad⟩
  · rintro ⟨rfl, hbad⟩
    exact ⟨rfl, hbad, nofun⟩

theorem firstBad_succ_iff {first token : List Char} {rest : List (List Char)} {k : Nat} :
    FirstBad (first :: rest) (k + 1) token ↔ IsWord first ∧ FirstBad rest k token := by
  constructor
  · rintro ⟨hk, hbad, hbefore⟩
    refine ⟨hbefore 0 k.succ_pos first rfl, hk, hbad, fun j hj earlier hearlier => ?_⟩
    exact hbefore (j + 1) (Nat.succ_lt_succ hj) earlier hearlier
  · rintro ⟨hgood, hk, hbad, hbefore⟩
    refine ⟨hk, hbad, fun j hj earlier hearlier => ?_⟩
    cases j with
    | zero =>
      cases hearlier
      exact hgood
    | succ j => exact hbefore j (Nat.lt_of_succ_lt_succ hj) earlier hearlier

/-- **Otherwise the first bad token is reported**, with its place. -/
theorem readPieces_eq_error_iff {index : Nat} {tokens : List (List Char)} {fault : Fault} :
    readPieces index tokens = .error fault ↔ ∃ k token, FirstBad tokens k token ∧
      fault = .parse (index + k) (String.ofList token) := by
  induction tokens generalizing index with
  | nil =>
    refine ⟨nofun, ?_⟩
    rintro ⟨k, token, ⟨hk, -, -⟩, -⟩
    simp at hk
  | cons first rest ih =>
    have hword : IsWord first ↔ ∃ word, Word.ofChars? first = some word := isWord_iff
    cases h : Word.ofChars? first with
    | none =>
      have hbad : ¬ IsWord first := by simp [hword, h]
      rw [readPieces_of_none h]
      constructor
      · rintro ⟨⟩
        exact ⟨0, first, firstBad_zero_iff.mpr ⟨rfl, hbad⟩, rfl⟩
      · rintro ⟨k, token, hk, rfl⟩
        cases k with
        | zero =>
          obtain ⟨rfl, -⟩ := firstBad_zero_iff.mp hk
          rfl
        | succ k => exact absurd (firstBad_succ_iff.mp hk).1 hbad
    | some word =>
      have hgood : IsWord first := hword.mpr ⟨word, h⟩
      have hplace (k : Nat) : index + (k + 1) = index + 1 + k := by omega
      rw [readPieces_of_some h, map_eq_error_iff, ih]
      constructor
      · rintro ⟨k, token, hk, rfl⟩
        exact ⟨k + 1, token, firstBad_succ_iff.mpr ⟨hgood, hk⟩, by rw [hplace k]⟩
      · rintro ⟨k, token, hk, rfl⟩
        cases k with
        | zero => exact absurd hgood (firstBad_zero_iff.mp hk).2
        | succ k => exact ⟨k, token, (firstBad_succ_iff.mp hk).2, by rw [hplace k]⟩

/-! ## Sources -/

theorem parse_eq_ok_iff {source : String} {program : Program} :
    parse source = .ok program ↔
      List.Forall₂ (fun token (word : Word) => Decimal.Spells token word.val) (pieces source)
        program.words := by
  rw [parse, map_eq_ok_iff]
  constructor
  · rintro ⟨words, h, rfl⟩
    exact readPieces_eq_ok_iff.mp h
  · intro h
    exact ⟨program.words, readPieces_eq_ok_iff.mpr h, rfl⟩

theorem parse_eq_error_iff {source : String} {fault : Fault} :
    parse source = .error fault ↔ ∃ index token, FirstBad (pieces source) index token ∧
      fault = .parse index (String.ofList token) := by
  rw [parse, map_eq_error_iff, readPieces_eq_error_iff]
  simp only [Nat.zero_add]

/-- Words can be found for tokens exactly if each token is one. -/
theorem exists_forall₂_spells_iff {tokens : List (List Char)} :
    (∃ words, List.Forall₂ (fun token (word : Word) => Decimal.Spells token word.val) tokens
      words) ↔ ∀ token ∈ tokens, IsWord token := by
  simp only [isWord_iff, Word.ofChars?_eq_some_iff]
  induction tokens with
  | nil => exact ⟨nofun, fun _ => ⟨[], .nil⟩⟩
  | cons token rest ih =>
    rw [List.forall_mem_cons, ← ih]
    constructor
    · rintro ⟨_, hall⟩
      obtain ⟨word, words, hfirst, hrest, rfl⟩ := List.forall₂_cons_left_iff.mp hall
      exact ⟨⟨word, hfirst⟩, words, hrest⟩
    · rintro ⟨⟨word, hfirst⟩, words, hrest⟩
      exact ⟨word :: words, .cons hfirst hrest⟩

theorem exists_parse_eq_ok_iff {source : String} :
    (∃ program, parse source = .ok program) ↔ ∀ token ∈ pieces source, IsWord token := by
  rw [← exists_forall₂_spells_iff]
  constructor
  · rintro ⟨program, h⟩
    exact ⟨program.words, parse_eq_ok_iff.mp h⟩
  · rintro ⟨words, h⟩
    exact ⟨⟨words⟩, parse_eq_ok_iff.mpr h⟩

/-- Nothing spells no integer. -/
theorem not_isWord_nil : ¬ IsWord [] := by
  rw [isWord_iff]
  rintro ⟨word, h⟩
  cases h

/-- **A source is accepted exactly if it is in the grammar.** A source has tokens, and no others. It
is a program exactly if all of them spell integers that fit into 64 bits, and then these are the
words of the program, in order. Otherwise the first bad token is reported with its index. In
particular it makes no difference that the source is stripped before it is cut; a source with an
empty token is rejected, and one that is all white space for its only token; and white space may be
added around the pieces of a source without any effect. -/
theorem parse_accepts_its_grammar (source : String) :
    (∃! tokens, Tokens source tokens) ∧
    (∀ tokens, Tokens source tokens →
      ((∃ program, parse source = .ok program) ↔ ∀ token ∈ tokens, IsWord token) ∧
      (∀ program, parse source = .ok program ↔
        List.Forall₂ (fun token (word : Word) => Decimal.Spells token word.val) tokens
          program.words) ∧
      (∀ fault, parse source = .error fault ↔ ∃ index token, FirstBad tokens index token ∧
        fault = .parse index (String.ofList token)) ∧
      ([] ∈ tokens → ∃ fault, parse source = .error fault)) ∧
    parse source = (readPieces 0 ((source.toList.splitOn ',').map
      (Text.trim Text.isBlank))).map Program.mk ∧
    ((∀ c ∈ source.toList, Text.isBlank c = true) → parse source = .error (.parse 0 "")) ∧
    ∀ raws padded, Text.Cuts ',' source.toList raws →
      List.Forall₂ (Text.Pads Text.isBlank) raws padded →
        parse (String.ofList ([','].intercalate padded)) = parse source := by
  have htokens : Tokens source (pieces source) := tokens_iff.mpr rfl
  refine ⟨⟨pieces source, htokens, fun tokens h => (tokens_iff.mp h).symm⟩, fun tokens h => ?_,
    ?_, fun hblank => ?_, fun raws padded hcuts hpads => ?_⟩
  · obtain rfl := tokens_iff.mp h
    refine ⟨exists_parse_eq_ok_iff, fun program => parse_eq_ok_iff, fun fault => parse_eq_error_iff,
      fun hempty => ?_⟩
    cases hparse : parse source with
    | error fault => exact ⟨fault, rfl⟩
    | ok program =>
      exact absurd (exists_parse_eq_ok_iff.mp ⟨program, hparse⟩ [] hempty) not_isWord_nil
  · rw [parse, pieces_eq]
  · have hpieces : pieces source = [[]] := by
      rw [pieces, Text.trim_of_forall hblank]
      rfl
    exact parse_eq_error_iff.mpr ⟨0, [], hpieces ▸ firstBad_zero_iff.mpr ⟨rfl, not_isWord_nil⟩, rfl⟩
  · rw [parse, parse, pieces_of_pads hcuts hpads]

/-- Signs, leading zeros and white space of all kinds, an empty token that is not the last bad one,
no token but white space, and white space added to a number. -/
theorem parse_accepts_its_grammar_corners :
    parse "+07,\u00a0-0" = .ok ⟨[7, 0]⟩ ∧
      ((∃ fault, parse "1, ,x" = .error fault) ∧ parse "1, ,x" = .error (.parse 1 "")) ∧
      parse "\u3000" = .error (.parse 0 "") ∧ parse "\n7 " = parse "7" := by
  obtain ⟨-, hsigns, -⟩ := parse_accepts_its_grammar "+07,\u00a0-0"
  obtain ⟨-, hempty, -⟩ := parse_accepts_its_grammar "1, ,x"
  obtain ⟨-, -, -, hblank, -⟩ := parse_accepts_its_grammar "\u3000"
  obtain ⟨-, -, -, -, hpads⟩ := parse_accepts_its_grammar "7"
  obtain ⟨-, hok, -⟩ := hsigns [['+', '0', '7'], ['-', '0']] (tokens_iff.mpr (by decide))
  obtain ⟨-, -, herror, hrejected⟩ := hempty [['1'], [], ['x']] (tokens_iff.mpr (by decide))
  refine ⟨(hok ⟨[7, 0]⟩).mpr ?_, ⟨hrejected (by decide), (herror _).mpr ⟨1, [], ?_, rfl⟩⟩,
    hblank (List.all_eq_true.mp rfl), ?_⟩
  · have hseven : Decimal.Numeral ['0', '7'] 7 := ⟨by decide, by simp [Decimal.IsDigit], rfl⟩
    have hzero : Decimal.Numeral ['0'] 0 := ⟨by decide, by simp [Decimal.IsDigit], rfl⟩
    exact .cons (.plus hseven) (.cons (.minus hzero) .nil)
  · exact firstBad_succ_iff.mpr ⟨isWord_iff.mpr ⟨1, by decide⟩,
      firstBad_zero_iff.mpr ⟨rfl, not_isWord_nil⟩⟩
  · exact hpads [['7']] [['\n', '7', ' ']] (Text.cuts_iff.mpr (by decide))
      (.cons (.intro ['\n'] [' '] (List.all_eq_true.mp rfl) (List.all_eq_true.mp rfl)) .nil)

end Program

end Intcode
