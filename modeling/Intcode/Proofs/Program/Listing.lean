import Intcode.Listing
import Intcode.Proofs.Machine.Next
import Intcode.Proofs.Program.RoundTrip

/-!
# Listings lose nothing

A listing (`disassemble`) walks over a program in steps of different sizes, and a printed line has
columns that give way to what is too wide for them. Neither loses anything. `Line.Tile` says that
lines stand one right behind the other; `Columns.ofPrinted` takes a printed line apart again,
without any knowledge of how wide the address and the words were.

The address ends at the colon and the words at a blank, since neither is written with such a
character. What follows the words is padding up to the width of their column, and only then the
text, so the text may hold anything.

Results:
* `Memory.tile_linesFrom`, `Memory.flatMap_words_linesFrom`: the lines tile the memory.
* `Memory.yields_lineAt`: a line is an instruction with all of its words, or one word of data.
* `Line.columns_render`: the columns of a printed line are what was printed.
* **`listing_is_lossless`**: all of this, and that a program reads back from its printed lines.
-/

namespace Intcode

/-! ## Lines one behind the other -/

/-- **Lines tile from an address on**: each starts where the one before it ends, and covers at
least one word. -/
def Line.Tile : Nat → List Line → Prop
  | _, [] => True
  | address, line :: rest =>
    line.address = address ∧ line.words ≠ [] ∧ Tile (address + line.words.length) rest

/-- There are at most as many lines as words. -/
theorem Line.Tile.length_le {address : Nat} {lines : List Line} (h : Tile address lines) :
    lines.length ≤ (lines.flatMap Line.words).length := by
  induction lines generalizing address with
  | nil => simp
  | cons line rest ih =>
    obtain ⟨-, hne, hrest⟩ := h
    have hpos : 0 < line.words.length := List.length_pos_of_ne_nil hne
    have hlength := ih hrest
    rw [List.flatMap_cons, List.length_append, List.length_cons]
    omega

namespace Memory

variable (memory : Memory) {address : Nat}

/-- What decodes lies inside memory, and so does a word of data. -/
theorem add_stride_le (h : address < memory.size) :
    address + memory.stride address ≤ memory.size := by
  unfold stride
  split
  case h_1 instruction hdecode => exact (memory.yields_decode address).of_ok hdecode
  case h_2 => exact h

theorem address_lineAt (address : Nat) : (memory.lineAt address).address = address := by
  unfold lineAt
  split <;> rfl

/-- A line has the words that its stride passes over. -/
theorem words_lineAt (address : Nat) :
    (memory.lineAt address).words =
      (memory.cells.toList.drop address).take (memory.stride address) := by
  unfold lineAt stride
  split <;> simp [List.extract_eq_take_drop]

theorem length_words_lineAt (h : address < memory.size) :
    (memory.lineAt address).words.length = memory.stride address := by
  have hinside := memory.add_stride_le h
  rw [size] at hinside
  rw [words_lineAt, List.length_take, List.length_drop, Array.length_toList]
  omega

theorem words_lineAt_ne_nil (h : address < memory.size) : (memory.lineAt address).words ≠ [] := by
  apply List.ne_nil_of_length_pos
  rw [memory.length_words_lineAt h]
  exact memory.stride_pos address

/-- **The lines tile**, from wherever they start. -/
theorem tile_linesFrom (address : Nat) : Line.Tile address (memory.linesFrom address) := by
  fun_induction memory.linesFrom address with
  | case1 address h ih =>
    refine ⟨memory.address_lineAt address, memory.words_lineAt_ne_nil h, ?_⟩
    rwa [memory.length_words_lineAt h]
  | case2 => trivial

/-- **The words of the lines are the cells** from the first line on. -/
theorem flatMap_words_linesFrom (address : Nat) :
    (memory.linesFrom address).flatMap Line.words = memory.cells.toList.drop address := by
  fun_induction memory.linesFrom address with
  | case1 address h ih =>
    rw [List.flatMap_cons, ih, words_lineAt, ← List.drop_drop, List.take_append_drop]
  | case2 address h =>
    have hlength : memory.cells.toList.length ≤ address := Nat.le_of_not_lt h
    rw [List.flatMap_nil, List.drop_of_length_le hlength]

/-- Every line of a listing is the one at its address. -/
theorem mem_linesFrom {line : Line} (h : line ∈ memory.linesFrom address) :
    line.address < memory.size ∧ memory.lineAt line.address = line := by
  fun_induction memory.linesFrom address with
  | case1 address hinside ih =>
    rcases List.mem_cons.mp h with rfl | hrest
    · rw [address_lineAt]
      exact ⟨hinside, rfl⟩
    · exact ih hrest
  | case2 => cases h

/-- **A line shows the instruction at its address and all of its words**, or else the one word there
as data. -/
theorem yields_lineAt (h : address < memory.size) :
    Yields
      (fun instruction => (memory.lineAt address).text = instruction.text ∧
        (memory.lineAt address).words.length = instruction.length)
      (fun _ => ∃ word, (memory.lineAt address).words = [word] ∧
        (memory.lineAt address).text = "data " ++ word.text)
      (memory.decode address) := by
  have hlength := memory.length_words_lineAt h
  cases hdecode : memory.decode address with
  | ok instruction =>
    rw [stride, hdecode] at hlength
    exact ⟨by simp [Line.text, lineAt, hdecode], hlength⟩
  | error fault =>
    rw [stride, hdecode] at hlength
    obtain ⟨word, hword⟩ := List.length_eq_one_iff.mp hlength
    refine ⟨word, hword, ?_⟩
    have hdata : (memory.lineAt address).instruction? = none := by simp [lineAt, hdecode]
    rw [Line.text, hdata, hword]
    simp [Program.wordsText]

end Memory

/-! ## Printed lines -/

/-- The columns of a printed line. -/
structure Columns where
  address : String
  words : String
  text : String
deriving DecidableEq

/-- **The columns of a line, found in print**: behind blanks and up to a colon, then up to a blank,
then whatever stands behind the room for the words. -/
def Columns.ofPrinted (printed : String) : Columns :=
  let unpadded := printed.toList.dropWhile (· = ' ')
  let address := unpadded.takeWhile (· ≠ ':')
  let rest := unpadded.drop (address.length + 2)
  let words := rest.takeWhile (· ≠ ' ')
  let text := rest.drop (max 24 words.length + 1)
  ⟨String.ofList address, String.ofList words, String.ofList text⟩

/-- The address, the words and the text of a printed line. -/
def Line.read? (printed : String) : Option (Nat × List Word × String) := do
  let columns := Columns.ofPrinted printed
  let address ← Decimal.nat? columns.address.toList
  let program ← (Program.parse columns.words).toOption
  return (address, program.words, columns.text)

/-! ## Finding the columns -/

namespace Columns

/-- **The address ends at the colon**, and blanks in front of it do not count. -/
theorem address_column {address : List Char} (h : ∀ c ∈ address, c.isDigit = true) (n : Nat)
    (rest : List Char) :
    let unpadded := (List.replicate n ' ' ++ (address ++ ([':', ' '] ++ rest))).dropWhile (· = ' ')
    unpadded.takeWhile (· ≠ ':') = address ∧ unpadded.drop (address.length + 2) = rest := by
  have hne {c : Char} (hc : c ∈ address) : c ≠ ' ' ∧ c ≠ ':' := by
    have hdigit := h c hc
    constructor <;> rintro rfl <;> simp at hdigit
  have hunpadded : (List.replicate n ' ' ++ (address ++ ([':', ' '] ++ rest))).dropWhile (· = ' ') =
      address ++ ([':', ' '] ++ rest) := by
    rw [List.dropWhile_append_of_pos (by simp)]
    refine Text.dropWhile_eq_self fun c hc => ?_
    rw [List.head?_append] at hc
    rcases Option.or_eq_some_iff.mp hc with hfirst | ⟨-, ⟨⟩⟩
    · exact decide_eq_false (hne (List.mem_of_mem_head? hfirst)).1
    · rfl
  intro unpadded
  rw [show unpadded = address ++ ([':', ' '] ++ rest) from hunpadded]
  refine ⟨Text.takeWhile_append_eq (fun c hc => ?_) (by simp), ?_⟩
  · exact decide_eq_true (hne hc).2
  · rw [← List.append_assoc, List.drop_left' (by simp)]

/-- **The words end at a blank**, and the text starts behind the room that they have. -/
theorem words_column {words : List Char} (h : ' ' ∉ words) (text : List Char) :
    let rest := words ++ (List.replicate (24 - words.length) ' ' ++ [' '] ++ text)
    rest.takeWhile (· ≠ ' ') = words ∧ rest.drop (max 24 words.length + 1) = text := by
  intro rest
  constructor
  · refine Text.takeWhile_append_eq (fun c hc => ?_) ?_
    · exact decide_eq_true (ne_of_mem_of_not_mem hc h)
    · -- a blank follows in any case: one of the padding, or the one behind it
      cases 24 - words.length <;> simp [List.replicate_succ]
  · have hroom : (words ++ (List.replicate (24 - words.length) ' ' ++ [' '])).length =
        max 24 words.length + 1 := by
      rw [List.length_append, List.length_append, List.length_replicate, List.length_singleton]
      omega
    rw [show rest = _ from (List.append_assoc _ _ _).symm, List.drop_left' hroom]

end Columns

namespace Line

/-- The columns of a line as they are printed one after the other. -/
theorem toList_render (line : Line) :
    let address := (Decimal.ofNat line.address).toList
    let words := (Program.wordsText line.words).toList
    line.render.toList = List.replicate (5 - address.length) ' ' ++ (address ++ ([':', ' '] ++
      (words ++ (List.replicate (24 - words.length) ' ' ++ [' '] ++ line.text.toList)))) := by
  simp only [render, padding, String.toList_append, String.toList_ofList, List.append_assoc,
    String.length_toList]
  rfl

/-- Words are written without blanks, and so are the commas between them. -/
theorem blank_not_mem_wordsText (words : List Word) : ' ' ∉ (Program.wordsText words).toList :=
  Program.not_mem_wordsText rfl (by decide) (by decide) words

/-- **The columns of a printed line are what was printed**, whether or not it fits its column. -/
theorem columns_render (line : Line) :
    Columns.ofPrinted line.render =
      ⟨Decimal.ofNat line.address, Program.wordsText line.words, line.text⟩ := by
  have hdigits := fun c => @Decimal.isDigit_of_mem_ofNat line.address c
  unfold Columns.ofPrinted
  simp only [line.toList_render, Columns.address_column hdigits,
    Columns.words_column (blank_not_mem_wordsText line.words), String.ofList_toList]

/-- **A printed line reads back**, if there are words on it. -/
theorem read?_render {line : Line} (h : line.words ≠ []) :
    read? line.render = some (line.address, line.words, line.text) := by
  have hwords : Program.parse (Program.wordsText line.words) = .ok ⟨line.words⟩ :=
    @Program.parse_text ⟨line.words⟩ h
  simp [read?, columns_render, Decimal.nat?_ofNat, hwords, Except.toOption]

end Line

/-! ## Main result -/

namespace Program

/-- Texts of words with commas between them are a text of words. -/
theorem intercalate_wordsText {parts : List (List Word)} (h : ∀ words ∈ parts, words ≠ []) :
    ",".intercalate (parts.map wordsText) = wordsText parts.flatten := by
  induction parts with
  | nil => rfl
  | cons words rest ih =>
    rw [List.forall_mem_cons] at h
    by_cases hrest : rest = []
    · subst hrest
      simp
    · have hflatten : rest.flatten ≠ [] := by
        obtain ⟨next, hnext⟩ := List.exists_mem_of_ne_nil rest hrest
        intro hnil
        exact h.2 next hnext (List.flatten_eq_nil_iff.mp hnil next hnext)
      rw [List.map_cons, String.intercalate_cons_of_ne_nil (by simpa using hrest), ih h.2,
        List.flatten_cons, wordsText, wordsText, wordsText, List.map_append,
        String.intercalate_append_of_ne_nil (by simpa using h.1) (by simpa using hflatten)]

/-- A listing covers the program. -/
theorem flatMap_words_listing (program : Program) :
    program.listing.flatMap Line.words = program.words := by
  rw [listing, Memory.flatMap_words_linesFrom]
  rfl

theorem words_ne_nil_of_mem_listing {program : Program} {line : Line}
    (h : line ∈ program.listing) : line.words ≠ [] := by
  obtain ⟨hinside, hline⟩ := Memory.mem_linesFrom _ h
  have hne := Memory.words_lineAt_ne_nil _ hinside
  rwa [hline] at hne

/-- **The words of the printed lines are the program.** -/
theorem flatMap_words_printed (program : Program) :
    (program.listing.map Line.render).flatMap
      (fun printed => (Line.read? printed).elim [] fun line => line.2.1) = program.words := by
  rw [← flatMap_words_listing, List.flatMap_map]
  refine List.flatMap_congr fun line hline => ?_
  rw [Line.read?_render (words_ne_nil_of_mem_listing hline)]
  rfl

/-- **The columns of words are a source of the program.** -/
theorem parse_printed {program : Program} (h : program.words ≠ []) :
    parse (",".intercalate
      (program.listing.map fun line => (Columns.ofPrinted line.render).words)) = .ok program := by
  have hcolumns : (program.listing.map fun line => (Columns.ofPrinted line.render).words) =
      (program.listing.map Line.words).map wordsText := by
    simp [Line.columns_render]
  have hne : ∀ words ∈ program.listing.map Line.words, words ≠ [] := by
    intro words hwords
    obtain ⟨line, hline, rfl⟩ := List.mem_map.mp hwords
    exact words_ne_nil_of_mem_listing hline
  rw [hcolumns, intercalate_wordsText hne, ← List.flatMap_def, flatMap_words_listing]
  exact parse_text h

/-- **A listing loses nothing.** Its lines, no more of them than there are words, tile the program
from address zero on, and their words are the words of the program. Each line shows the instruction
at its address with all of its words, or one word of data where none decodes.

Nor is anything lost in print. A printed line reads back, so that lines of any two programs that
look alike have the same address, words and text; the columns of words are a source of the program
unless it is empty; and programs with the same printed lines are the same. -/
theorem listing_is_lossless (program : Program) :
    Line.Tile 0 program.listing ∧ program.listing.flatMap Line.words = program.words ∧
    program.listing.length ≤ program.size ∧
    (∀ line ∈ program.listing,
      Yields
        (fun instruction => line.text = instruction.text ∧
          line.words.length = instruction.length)
        (fun _ => ∃ word, line.words = [word] ∧ line.text = "data " ++ word.text)
        ((Memory.ofProgram program).decode line.address) ∧
      Line.read? line.render = some (line.address, line.words, line.text) ∧
      ∀ other : Program, ∀ twin ∈ other.listing, twin.render = line.render →
        (twin.address, twin.words, twin.text) = (line.address, line.words, line.text)) ∧
    (program.words ≠ [] →
      parse (",".intercalate
        (program.listing.map fun line => (Columns.ofPrinted line.render).words)) = .ok program) ∧
    ∀ other : Program, other.listing.map Line.render = program.listing.map Line.render →
      other = program := by
  have htile : Line.Tile 0 program.listing := Memory.tile_linesFrom _ 0
  refine ⟨htile, program.flatMap_words_listing, ?_, fun line hline => ⟨?_, ?_, ?_⟩,
    parse_printed, fun other hprinted => ?_⟩
  · have hlength := htile.length_le
    rwa [flatMap_words_listing] at hlength
  · obtain ⟨hinside, hat⟩ := Memory.mem_linesFrom _ hline
    have hyields := Memory.yields_lineAt _ hinside
    rwa [hat] at hyields
  · exact Line.read?_render (words_ne_nil_of_mem_listing hline)
  · intro other twin htwin hrender
    have hread := Line.read?_render (words_ne_nil_of_mem_listing htwin)
    rw [hrender, Line.read?_render (words_ne_nil_of_mem_listing hline)] at hread
    exact (Option.some.inj hread).symm
  · have hwords : other.words = program.words := by
      rw [← flatMap_words_printed, hprinted, flatMap_words_printed]
    cases other
    cases program
    exact congrArg mk hwords

/-- An instruction too wide for its column, and one that the end of the program cuts short. -/
def wide : Program := ⟨[1101, 100000000000, 200000000000, 4, 3]⟩

/-- The words of the first line run over their column, those of the second leave it mostly blank;
the first line alone is the listing of another program. -/
theorem listing_is_lossless_wide :
    Line.read? "    0: 1101,100000000000,200000000000,4 add #100000000000, #200000000000, [4]" =
        some (0, [1101, 100000000000, 200000000000, 4], "add #100000000000, #200000000000, [4]") ∧
      Line.read? "    4: 3                        data 3" = some (4, [3], "data 3") ∧
      parse "1101,100000000000,200000000000,4,3" = .ok wide ∧
      wide.listing.map Line.render ≠
        (mk [1101, 100000000000, 200000000000, 4]).listing.map Line.render := by
  have hfirst : (Memory.ofProgram wide).stride 0 = 4 := by decide
  have hlast : (Memory.ofProgram wide).stride 4 = 1 := by decide
  have hlisting : wide.listing = [(Memory.ofProgram wide).lineAt 0,
      (Memory.ofProgram wide).lineAt 4] := by
    rw [listing, Memory.linesFrom, if_pos (by decide), hfirst, Memory.linesFrom,
      if_pos (by decide), hlast, Memory.linesFrom, if_neg (by decide)]
  obtain ⟨-, -, -, hline, hparse, hdetermines⟩ := listing_is_lossless wide
  refine ⟨(hline ((Memory.ofProgram wide).lineAt 0) ?_).2.1,
    (hline ((Memory.ofProgram wide).lineAt 4) ?_).2.1, ?_, fun h => ?_⟩
  · simp [hlisting]
  · simp [hlisting]
  · rw [hlisting] at hparse
    exact hparse (by decide)
  · exact absurd (hdetermines _ h.symm) (by decide)

end Program

end Intcode
