import Intcode.Fault
import Intcode.Text.Blank

/-!
# Programs and their source text

Model of `Program`, with `Program::parse` and the way in which a program is displayed.

A `Program` is the list of words that every run starts from. Its source is decimal numbers with
commas between them and blanks anywhere around a number; `parse` reads that, and reports the
first piece that is not a word. `text` writes the same form without blanks.
-/

namespace Intcode

/-- A program: the words a fresh memory holds. -/
structure Program where
  words : List Word
deriving DecidableEq

namespace Program

/-- The number of words (`Program::len`). -/
def size (program : Program) : Nat := program.words.length

/-- Words in decimal with commas between them. -/
def wordsText (words : List Word) : String := ",".intercalate (words.map Word.text)

/-- The source text of a program, without blanks, as it is displayed. -/
def text (program : Program) : String := wordsText program.words

/-- The pieces of a source between its commas, without the blanks around them: the tokens that
`Program::parse` goes through. -/
def pieces (source : String) : List (List Char) :=
  ((Text.trim Text.isBlank source.toList).splitOn ',').map (Text.trim Text.isBlank)

/-- Reads every piece as a word; `index` counts the pieces already read. -/
def readPieces (index : Nat) : List (List Char) → Except Fault (List Word)
  | [] => .ok []
  | piece :: rest =>
    match Word.ofChars? piece with
    | none => .error (.parse index (String.ofList piece))
    | some word => (readPieces (index + 1) rest).map (word :: ·)

/-- The program that a source text stands for (`Program::parse`). -/
def parse (source : String) : Except Fault Program :=
  (readPieces 0 (pieces source)).map Program.mk

end Program

end Intcode
