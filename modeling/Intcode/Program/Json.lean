import Intcode.Program

/-!
# Programs as JSON arrays

Model of what `serde_json` makes of a `Program`, which is serialized as its words alone, and of what
it reads as one.

A program is exchanged as a JSON array of integers. Numbers have one spelling each: a fraction,
an exponent, a leading zero or a negative zero is refused, and so is a number that no word
holds. Around every number, and around the array, JSON's own blanks are allowed.
-/

namespace Intcode.Program

/-- JSON text of a list of words. -/
def wordsJson (words : List Word) : String := "[" ++ wordsText words ++ "]"

/-- JSON text of a program. -/
def json (program : Program) : String := wordsJson program.words

/-- The blanks of JSON: space, tab, line feed and carriage return. -/
def isJsonBlank (c : Char) : Bool := c = ' ' || c = '\t' || c = '\n' || c = '\r'

/-- Reads a word spelled as it would be written. -/
def jsonWord? (cs : List Char) : Option Word :=
  (Word.ofChars? cs).filter fun word => word.text.toList = cs

/-- The text between an opening and a closing bracket. -/
def betweenBrackets? : List Char → Option (List Char)
  | '[' :: cs => if cs.getLast? = some ']' then some cs.dropLast else none
  | _ => none

/-- The words of a JSON array, given the text between its brackets. -/
def jsonElements? (inside : List Char) : Option (List Word) :=
  if inside.all isJsonBlank then some []
  else (inside.splitOn ',').mapM fun element => jsonWord? (Text.trim isJsonBlank element)

/-- The program that a JSON text stands for. -/
def ofJson? (source : String) : Option Program := do
  let inside ← betweenBrackets? (Text.trim isJsonBlank source.toList)
  let words ← jsonElements? inside
  return ⟨words⟩

end Intcode.Program
