import Intcode.Chain.Log
import Intcode.CommandLine.Report
import Intcode.CommandLine.Request
import Intcode.Listing

/-!
# The command line

Model of `run`, `run_amplifiers` and `read_source`, and of what `main` makes of their errors. Given
a request and what came of reading its source, `respond` says what to print and which status to exit
with; given the arguments, so does `reply`.

Standard error gets whatever the logger shows, as it comes. A failure prints nothing on standard
output, and one more line on standard error, behind the log. With the filter that is in force by
default a run that faults is logged, so there are two lines then, or more if several machines of a
chain fault; a source that cannot be read, or is no program, is not logged at all.
-/

namespace Intcode.CommandLine

/-! ## Reading a source -/

/-- Why a source could not be read. -/
inductive SourceError where
  /-- The operating system refused, with its own description and number of the error. -/
  | system (description : String) (code : Nat)
  /-- The bytes are not text. -/
  | invalidText
deriving DecidableEq

/-- What happened. -/
def SourceError.message : SourceError → String
  | system description code => description ++ " (os error " ++ Decimal.ofNat code ++ ")"
  | invalidText => "stream did not contain valid UTF-8"

/-- What happened, and to which file: the error of `read_source`. -/
def Source.failure (source : Source) (error : SourceError) : String :=
  match source with
  | standardInput => error.message
  | file path => "reading program " ++ path ++ ": " ++ error.message

/-- The text that bytes stand for in UTF-8. -/
def decodeText (bytes : ByteArray) : Except SourceError String :=
  match String.fromUTF8? bytes with
  | some text => .ok text
  | none => .error .invalidText

/-! ## Responses -/

/-- What a request leads to. -/
structure Response where
  status : Nat
  stdout : String
  stderr : String
deriving DecidableEq

namespace Response

/-- Everything went well. -/
def success (log stdout : String) : Response := ⟨0, stdout, log⟩

/-- Something went wrong. -/
def failure (log message : String) : Response := ⟨1, "", log ++ line ("fatal: " ++ message)⟩

/-- How the program is called. -/
def usage : String := "Usage: intcode-run [OPTIONS] [PROGRAM]\n"

/-- What the arguments can be, as it is put together from the comments on `Args`. -/
def help : Response where
  status := 0
  stdout := "Run an Intcode program and report what it emitted.\n\n" ++ usage ++ "
Arguments:
  [PROGRAM]  Program file (comma-separated integers). Reads stdin when omitted or \"-\"

Options:
  -i, --input <N>...   Values queued on the input channel, in order
      --max-steps <N>  Fault once this many instructions have executed
      --phases <N>...  Run an amplifier chain, one machine per phase setting
      --feedback       Feed the last amplifier's output back into the first
      --search         Try every ordering of --phases and report the best
      --disasm         Print a disassembly of the program and exit
      --json           Emit a JSON report instead of plain text
  -h, --help           Print help
"
  stderr := ""

/-- The arguments are not understood. Which of them, and why, is not said here. -/
def misuse : Response where
  status := 2
  stdout := ""
  stderr := "error: invalid arguments\n\n" ++ usage ++ "\nFor more information, try '--help'.\n"

/-- The response to arguments that make no request. -/
def refusal (arguments : List String) : Response := if asksForHelp arguments then help else misuse

end Response

/-! ## Tasks -/

/-- The text of a listing, as `run` prints it. -/
def listingText (program : Program) : String :=
  String.join (program.listing.map fun l => line l.render)

/-- The report on a program run once, as `run` makes it. -/
def runReport (fuel : Nat) (program : Program) (input : List Word) (limit : Option Nat) :
    Ending RunReport :=
  let machine : Machine := { program, limit, input := .queue input }
  match machine.run fuel with
  | (after, .finished _) => .finished (.ofState after.state)
  | (_, .faulted fault) => .faulted fault
  | (_, .unfinished) => .unfinished

/-- The report on a chain, or on a search, as `run_amplifiers` makes it. A search without a result
shows the settings as they were given. -/
def chainReport (fuel : Nat) (chain : Chain) (search : Bool) : Ending ChainReport :=
  if search then
    match chain.search fuel with
    | .finished (some best) => .finished ⟨best.phases, some best.signal⟩
    | .finished none => .finished ⟨chain.phases, none⟩
    | .faulted fault => .faulted fault
    | .unfinished => .unfinished
  else
    match chain.run fuel with
    | .finished signal => .finished ⟨chain.phases, signal⟩
    | .faulted fault => .faulted fault
    | .unfinished => .unfinished

/-- What the task prints for a program. -/
def Task.output (fuel : Nat) (program : Program) : Task → Ending String
  | list => .finished (listingText program)
  | run input limit format =>
    match runReport fuel program input limit with
    | .finished report =>
      .finished (match format with | .plain => report.plain | .json => report.json)
    | .faulted fault => .faulted fault
    | .unfinished => .unfinished
  | amplify phases signal topology search format =>
    match chainReport fuel { program, phases, signal, topology } search with
    | .finished report =>
      .finished (match format with | .plain => report.plain | .json => report.json)
    | .faulted fault => .faulted fault
    | .unfinished => .unfinished

/-- What the task logs about a program, behind what was logged before. -/
def Task.log (logger : Logger) (fuel : Nat) (program : Program) (before : Array Record) :
    Task → Array Record
  | list => before
  | run input limit _ =>
    Machine.runLog logger fuel { program, limit, input := .queue input } before
  | amplify phases signal topology search _ =>
    let chain : Chain := { program, phases, signal, topology }
    if search then chain.searchLog logger fuel before else chain.runLog logger fuel before

/-- A program was read. -/
def loadRecord (program : Program) : Record where
  level := .info
  target := "intcode_run"
  message := "program loaded"
  fields := [("len", Decimal.ofNat program.size)]

/-- The response to a request, given its source or why there is none (`run`, and `main` behind it);
`none` if the fuel does not suffice. -/
def respond (logger : Logger) (fuel : Nat) (request : Request)
    (source : Except SourceError String) : Option Response :=
  match source with
  | .error error => some (.failure "" (request.source.failure error))
  | .ok text =>
    match Program.parse text with
    | .error fault => some (.failure "" fault.message)
    | .ok program =>
      let log := logger.text
        (request.task.log logger fuel program (logger.shown [loadRecord program]).toArray)
      match request.task.output fuel program with
      | .finished stdout => some (.success log stdout)
      | .faulted fault => some (.failure log fault.message)
      | .unfinished => none

/-- The response to the arguments, given what the sources hold. Only the source of a request is
read. -/
def reply (logger : Logger) (fuel : Nat) (read : Source → Except SourceError String)
    (arguments : List String) : Option Response :=
  match Request.ofArguments? arguments with
  | some request => respond logger fuel request (read request.source)
  | none => some (.refusal arguments)

end Intcode.CommandLine
