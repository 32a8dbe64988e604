import Intcode.Instruction.Decode

/-!
# Listings

Model of `disassemble` and of how a `Line` is displayed.

A listing walks over a program from its first word. Where an instruction decodes, one line shows
all of its words; any other word is a line of its own, shown as data. Instructions and data
share one address space, so a listing shows how the program reads in a straight line, not what
a run would do.

* `Line.render`: the address in five columns, the words in twenty-four, then the text.
-/

namespace Intcode

/-- One line of a listing (`Line`); its text is made when it is shown. -/
structure Line where
  /-- Where the line starts. -/
  address : Nat
  /-- The words it covers. -/
  words : List Word
  /-- The instruction they encode, or none if the line is data. -/
  instruction? : Option Instruction
deriving DecidableEq

namespace Line

/-- What the words mean: an instruction in assembly notation, or data. -/
def text (line : Line) : String :=
  match line.instruction? with
  | some instruction => instruction.text
  | none => "data " ++ Program.wordsText line.words

/-- Blanks that bring a text to `width` columns; none if it is as wide already. -/
def padding (width : Nat) (s : String) : String :=
  String.ofList (List.replicate (width - s.length) ' ')

/-- The line as it is printed. -/
def render (line : Line) : String :=
  let address := Decimal.ofNat line.address
  let words := Program.wordsText line.words
  padding 5 address ++ address ++ ": " ++ words ++ padding 24 words ++ " " ++ line.text

end Line

namespace Memory

/-- The line that starts at an address. -/
def lineAt (memory : Memory) (address : Nat) : Line :=
  match memory.decode address with
  | .ok instruction =>
    ⟨address, (memory.cells.extract address (address + instruction.length)).toList,
      some instruction⟩
  | .error _ => ⟨address, (memory.cells.extract address (address + 1)).toList, none⟩

/-- How far the line at an address reaches: the length by which `disassemble` goes on. -/
def stride (memory : Memory) (address : Nat) : Nat :=
  match memory.decode address with
  | .ok instruction => instruction.length
  | .error _ => 1

theorem stride_pos (memory : Memory) (address : Nat) : 0 < memory.stride address := by
  unfold stride
  split
  · exact Instruction.length_pos _
  · exact Nat.one_pos

/-- The lines from an address to the end of memory. -/
def linesFrom (memory : Memory) (address : Nat) : List Line :=
  if address < memory.size then
    memory.lineAt address :: memory.linesFrom (address + memory.stride address)
  else []
termination_by memory.size - address
decreasing_by
  have := memory.stride_pos address
  omega

end Memory

/-- The lines of a program (`disassemble`). -/
def Program.listing (program : Program) : List Line := (Memory.ofProgram program).linesFrom 0

end Intcode
