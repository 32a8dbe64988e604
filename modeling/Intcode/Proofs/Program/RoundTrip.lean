import Intcode.Program.Json
import Intcode.Proofs.Program.Source

/-!
# Programs read back

A program has two texts, its source text without blanks and its JSON array, and both have a reader
of their own, `Program::parse` and that of `serde_json`. The source text of a program has its words
for tokens, so that it reads back unless there are no words: no source stands for the empty program,
since an empty text has an empty token. JSON has brackets, and so its reader can tell the empty
array.

Results:
* `cuts_wordsText`: the pieces of a text of words are the words.
* `parse_text`: the source text of a nonempty program reads back.
* `ofJson?_json`: the JSON text of any program reads back.
* **`texts_read_back`**: both of this, and that the source text is a normal form of sources.
-/

namespace Intcode.Program

/-! ## Texts of words -/

theorem toList_wordsText (words : List Word) :
    (wordsText words).toList = [','].intercalate (words.map fun word => word.text.toList) := by
  rw [wordsText, String.toList_intercalate, List.map_map]
  rfl

/-- **The pieces of a text of words are the words.** -/
theorem cuts_wordsText {words : List Word} (h : words ≠ []) :
    Text.Cuts ',' (wordsText words).toList (words.map fun word => word.text.toList) := by
  refine ⟨by simpa using h, fun piece hpiece => ?_, (toList_wordsText words).symm⟩
  obtain ⟨word, -, rfl⟩ := List.mem_map.mp hpiece
  exact word.not_mem_text rfl (by decide)

/-- Words are written with digits, minus signs and the commas between them. -/
theorem not_mem_wordsText {c : Char} (hdigit : c.isDigit = false) (hminus : c ≠ '-')
    (hcomma : c ≠ ',') (words : List Word) : c ∉ (wordsText words).toList := by
  rw [toList_wordsText]
  refine Text.not_mem_intercalate hcomma fun piece hpiece => ?_
  obtain ⟨word, -, rfl⟩ := List.mem_map.mp hpiece
  exact word.not_mem_text hdigit hminus

/-- A word is written without characters that might be stripped. -/
theorem trim_text {p : Char → Bool} (hdigit : ∀ c, c.isDigit = true → p c = false)
    (hminus : p '-' = false) (word : Word) :
    Text.trim p word.text.toList = word.text.toList := by
  refine Text.trim_eq_self fun c hc => ?_
  rcases Word.mem_text hc with h | rfl
  · exact hdigit c h
  · exact hminus

/-! ## Source texts -/

theorem isBlank_of_isDigit {c : Char} (h : c.isDigit = true) : Text.isBlank c = false := by
  have hrange : 48 ≤ c.toNat ∧ c.toNat ≤ 57 := Char.isDigit_iff_toNat.mp h
  simp [Text.isBlank, Text.blank, Text.CharRanges.contains]
  omega

theorem pieces_text {program : Program} (h : program.words ≠ []) :
    pieces program.text = program.words.map fun word => word.text.toList := by
  rw [pieces_eq, text, ← Text.cuts_iff.mp (cuts_wordsText h), List.map_map]
  refine List.map_congr_left fun word _ => ?_
  exact trim_text (fun c => isBlank_of_isDigit) (by decide) word

/-- **The source text of a nonempty program reads back.** -/
theorem parse_text {program : Program} (h : program.words ≠ []) :
    parse program.text = .ok program := by
  rw [parse_eq_ok_iff, pieces_text h, List.forall₂_map_left_iff, List.forall₂_same]
  exact fun word _ => word.spells_text

/-- A source stands for a program with at least one word. -/
theorem words_ne_nil_of_parse {source : String} {program : Program}
    (h : parse source = .ok program) : program.words ≠ [] := by
  intro hnil
  have hpieces := parse_eq_ok_iff.mp h
  rw [hnil, List.forall₂_nil_right_iff, pieces_eq, List.map_eq_nil_iff] at hpieces
  exact List.splitOn_ne_nil ',' source.toList hpieces

/-! ## JSON -/

theorem isJsonBlank_of_isDigit {c : Char} (h : c.isDigit = true) : isJsonBlank c = false := by
  have hne {d : Char} (hd : d.isDigit = false) : c ≠ d := by
    rintro rfl
    simp [h] at hd
  simp only [isJsonBlank, Bool.or_eq_false_iff, decide_eq_false_iff_not]
  exact ⟨⟨⟨hne rfl, hne rfl⟩, hne rfl⟩, hne rfl⟩

/-- A word is an element as it stands. -/
theorem jsonWord?_trim_text (word : Word) :
    jsonWord? (Text.trim isJsonBlank word.text.toList) = some word := by
  rw [trim_text (fun c => isJsonBlank_of_isDigit) (by decide)]
  simp [jsonWord?, Word.ofChars?_text]

theorem mapM_jsonWord? (words : List Word) :
    (words.map fun word => word.text.toList).mapM
      (fun element => jsonWord? (Text.trim isJsonBlank element)) = some words := by
  induction words with
  | nil => rfl
  | cons word words ih =>
    rw [List.map_cons, List.mapM_cons, jsonWord?_trim_text, ih]
    rfl

/-- A text of at least one word is not blank, since its first character belongs to a word. -/
theorem all_isJsonBlank_wordsText {words : List Word} (h : words ≠ []) :
    (wordsText words).toList.all isJsonBlank = false := by
  obtain ⟨word, rest, rfl⟩ := List.exists_cons_of_ne_nil h
  obtain ⟨c, cs, hc⟩ := List.exists_cons_of_ne_nil word.text_ne_nil
  have hmem : c ∈ (wordsText (word :: rest)).toList := by
    rw [toList_wordsText, List.map_cons, hc]
    cases rest <;> simp
  have hblank : isJsonBlank c = false := by
    rcases Word.mem_text (hc ▸ List.mem_cons_self : c ∈ word.text.toList) with h | rfl
    · exact isJsonBlank_of_isDigit h
    · rfl
  exact List.all_eq_false.mpr ⟨c, hmem, by simp [hblank]⟩

/-- **The words of an array read back**, also if there are none. -/
theorem jsonElements?_wordsText (words : List Word) :
    jsonElements? (wordsText words).toList = some words := by
  unfold jsonElements?
  by_cases h : words = []
  · subst h
    rfl
  · rw [all_isJsonBlank_wordsText h, if_neg Bool.false_ne_true,
      ← Text.cuts_iff.mp (cuts_wordsText h), mapM_jsonWord?]

/-- **The JSON text of a program reads back.** -/
theorem ofJson?_json (program : Program) : ofJson? program.json = some program := by
  have hjson : program.json.toList = '[' :: (wordsText program.words).toList ++ [']'] := by
    simp [json, wordsJson]
  have htrim : Text.trim isJsonBlank program.json.toList = program.json.toList := by
    refine Text.Strips.trim_eq ⟨.refl _ _, ?_, ?_⟩
    · simp [hjson, isJsonBlank]
    · rw [hjson, List.getLast?_concat]
      simp [isJsonBlank]
  have hinside : betweenBrackets? program.json.toList = some (wordsText program.words).toList := by
    rw [hjson]
    simp [betweenBrackets?]
  rw [ofJson?, htrim, hinside]
  simp [jsonElements?_wordsText]

/-! ## Main result -/

/-- **Both texts of a program read back.** The source text of a program with at least one word reads
back as the program; the JSON text of any program is its source text in brackets, and reads back as
well. So different nonempty programs have different source texts. And what a source stands for is
written as a text that stands for the same, a normal form: two sources that are accepted stand for
the same program exactly if it is written in the same way. -/
theorem texts_read_back (program : Program) :
    (program.words ≠ [] → parse program.text = .ok program) ∧
    program.json = "[" ++ program.text ++ "]" ∧ ofJson? program.json = some program ∧
    (∀ other : Program, program.words ≠ [] → other.words ≠ [] → program.text = other.text →
      program = other) ∧
    ∀ source, parse source = .ok program →
      parse program.text = .ok program ∧
      ∀ source' other, parse source' = .ok other →
        (program = other ↔ program.text = other.text) := by
  have hinjective (other : Program) (hne : program.words ≠ []) (hother : other.words ≠ [])
      (htext : program.text = other.text) : program = other := by
    have hparse := parse_text hne
    rw [htext, parse_text hother] at hparse
    exact (Except.ok.inj hparse).symm
  refine ⟨parse_text, rfl, ofJson?_json program, hinjective, fun source hsource => ?_⟩
  have hne := words_ne_nil_of_parse hsource
  refine ⟨parse_text hne, fun source' other hsource' => ⟨fun h => by rw [h], ?_⟩⟩
  exact hinjective other hne (words_ne_nil_of_parse hsource')

/-- The least word, which has no positive counterpart, and zero. -/
def extremes : Program := ⟨[⟨-Word.bound, by decide, by decide⟩, 0]⟩

/-- Leading zeros, blanks and the sign of zero are lost in the normal form, and nothing else is. -/
theorem texts_read_back_extremes :
    parse "-9223372036854775808,0" = .ok extremes ∧
      ofJson? "[-9223372036854775808,0]" = some extremes ∧
      extremes.text ≠ (Program.mk [7]).text ∧
      (parse " -09223372036854775808 , -0" = .ok extremes ∧ parse "+7" = .ok ⟨[7]⟩ ∧
        (extremes = ⟨[7]⟩ ↔ extremes.text = (Program.mk [7]).text)) := by
  obtain ⟨hparse, -, hjson, hinjective, hsource⟩ := texts_read_back extremes
  have hblanks : parse " -09223372036854775808 , -0" = .ok extremes := rfl
  have hplus : parse "+7" = .ok ⟨[7]⟩ := rfl
  refine ⟨hparse (by decide), hjson, fun h => ?_, hblanks, hplus, ?_⟩
  · exact absurd (hinjective ⟨[7]⟩ (by decide) (by decide) h) (by decide)
  · exact (hsource _ hblanks).2 "+7" ⟨[7]⟩ hplus

end Intcode.Program
