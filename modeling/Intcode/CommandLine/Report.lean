import Intcode.Machine
import Intcode.Program.Json

/-!
# Reports

Model of `RunReport` and `ChainReport`: what `run` prints about a run and `run_amplifiers` about a
chain, as plain text or as one line of JSON. Every line ends with a line feed.
-/

namespace Intcode.CommandLine

/-- One line of text. -/
def line (s : String) : String := s ++ "\n"

/-- A JSON object with the given fields, in their order and without blanks. -/
def jsonObject (fields : List (String × String)) : String :=
  "\x7b" ++ ",".intercalate (fields.map fun (key, value) => "\"" ++ key ++ "\":" ++ value) ++ "\x7d"

/-- JSON text of a word that may be missing. -/
def jsonWord (word : Option Word) : String :=
  match word with
  | some word => word.text
  | none => "null"

/-- The result of a single run (`RunReport`). -/
structure RunReport where
  last : Option Word
  outputs : List Word
  steps : Nat
  memory : List Word
deriving DecidableEq

namespace RunReport

/-- The report on a run that ended in a state. -/
def ofState (state : State) : RunReport where
  last := state.last
  outputs := state.outputs.toList
  steps := state.steps
  memory := state.memory.cells.toList

/-- One line for each output, then one for the last. -/
def plain (report : RunReport) : String :=
  let last := match report.last with
    | some word => word.text
    | none => "none"
  String.join (report.outputs.map fun word => line word.text) ++ line ("last output: " ++ last)

/-- One JSON object. -/
def json (report : RunReport) : String :=
  line (jsonObject [
    ("last_output", jsonWord report.last),
    ("outputs", Program.wordsJson report.outputs),
    ("steps", Decimal.ofNat report.steps),
    ("memory", Program.wordsJson report.memory)])

end RunReport

/-- The result of a chain, or of a search (`ChainReport`). -/
structure ChainReport where
  phases : List Word
  signal : Option Word
deriving DecidableEq

namespace ChainReport

/-- One line of text. -/
def plain (report : ChainReport) : String :=
  let signal := match report.signal with
    | some word => "signal " ++ word.text
    | none => "no signal"
  line ("phases " ++ Program.wordsText report.phases ++ ": " ++ signal)

/-- One JSON object. -/
def json (report : ChainReport) : String :=
  line (jsonObject [
    ("phases", Program.wordsJson report.phases),
    ("signal", jsonWord report.signal)])

end ChainReport

end Intcode.CommandLine
