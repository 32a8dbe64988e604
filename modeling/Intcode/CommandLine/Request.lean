import Intcode.Chain

/-!
# What the user asks for

Model of `Args` and of how it is parsed from the arguments of the command line. What comes of the
options in `run` and `run_amplifiers` is decided here as well: `Options.task` tells which of the two
has something to do, and what.

`Request.ofArguments?` is the request that the arguments make. There is none if they break one of
these rules, or ask for help:

* At most one argument names the program; `-`, or no name at all, stands for standard input.
  After `--` every argument is a name.
* `-i`, `--input` and `--phases` take one or more values. Values that follow as arguments of their
  own go on until `--` or something that looks like an option; a negative number does not. A value
  attached to the option (`--input=1,2`, `-i5`, `-i=5`) is the only one of that occurrence. A value
  may be several numbers with commas between them. A repeated option adds to its values.
* `--max-steps` takes one number. It, `--feedback`, `--search`, `--disasm` and `--json` may stand
  once; only the first takes a value.
* `--disasm` excludes `--phases` and `--json`. Without it, `--feedback` and `--search` need
  `--phases`.
* `--help`, and anything that starts with `-h`, asks for help where an option can stand. Help is
  given at once, so `asksForHelp` does not look at what stands behind.

The arguments are read from left to right; `Scan` is what is known after some of them.
-/

namespace Intcode.CommandLine

/-! ## Requests -/

/-- Where the program is read from. -/
inductive Source where
  | standardInput
  | file (path : String)
deriving DecidableEq

/-- How results are written. -/
inductive Format where
  | plain
  | json
deriving DecidableEq

/-- What to do with the program. -/
inductive Task where
  /-- Print its listing. -/
  | list
  /-- Run it once. -/
  | run (input : List Word) (limit : Option Nat) (format : Format)
  /-- Run it in a chain, or search for the best ordering of the settings. -/
  | amplify (phases : List Word) (signal : Word) (topology : Topology) (search : Bool)
      (format : Format)
deriving DecidableEq

/-- A task and the program it is for. -/
structure Request where
  source : Source
  task : Task
deriving DecidableEq

/-! ## Options -/

/-- The options given so far: the fields of `Args`. -/
structure Options where
  name : Option String := none
  input : List Word := []
  phases : List Word := []
  maxSteps : Option Nat := none
  feedback : Bool := false
  search : Bool := false
  disasm : Bool := false
  json : Bool := false
deriving DecidableEq

/-- An option with a list of values. -/
inductive ListOption where
  | input
  | phases
deriving DecidableEq

namespace Options

/-- Adds values to an option. -/
def append (options : Options) (option : ListOption) (values : List Word) : Options :=
  match option with
  | .input => { options with input := options.input ++ values }
  | .phases => { options with phases := options.phases ++ values }

/-- Adds the numbers of one value, which stand between its commas. -/
def addValue? (options : Options) (option : ListOption) (value : List Char) : Option Options :=
  ((value.splitOn ',').mapM Word.ofChars?).map (options.append option)

/-- Sets the step limit, which has to fit into 64 bits, once. -/
def setMaxSteps? (options : Options) (value : List Char) : Option Options :=
  match options.maxSteps, Decimal.unsigned? value with
  | none, some limit =>
    if limit < 0x10000000000000000 then some { options with maxSteps := some limit } else none
  | _, _ => none

/-- Sets the name of the program, which is not empty, once. -/
def setName? (options : Options) (name : String) : Option Options :=
  if options.name = none ∧ name ≠ "" then some { options with name := some name } else none

/-- Sets one of the options without a value, once. -/
def setFlag? (options : Options) (name : String) : Option Options :=
  match name with
  | "feedback" => if options.feedback then none else some { options with feedback := true }
  | "search" => if options.search then none else some { options with search := true }
  | "disasm" => if options.disasm then none else some { options with disasm := true }
  | "json" => if options.json then none else some { options with json := true }
  | _ => none

/-- Do the options go together? -/
def areConsistent (options : Options) : Bool :=
  if options.disasm then options.phases.isEmpty && !options.json
  else !((options.feedback || options.search) && options.phases.isEmpty)

/-- The source that the name stands for, as `read_source` takes it. -/
def source (options : Options) : Source :=
  match options.name with
  | none => .standardInput
  | some name => if name = "-" then .standardInput else .file name

/-- The format of the results. -/
def format (options : Options) : Format := if options.json then .json else .plain

/-- The arrangement of a chain, as `run_amplifiers` chooses it. -/
def topology (options : Options) : Topology := if options.feedback then .feedback else .series

/-- The task of consistent options: the branch that `run` takes. The first input value is the signal
of a chain. -/
def task (options : Options) : Task :=
  if options.disasm then .list
  else if options.phases.isEmpty then .run options.input options.maxSteps options.format
  else
    .amplify options.phases (options.input.head?.getD 0) options.topology options.search
      options.format

end Options

/-! ## Reading the arguments -/

/-- What the next argument may be. -/
inductive Expecting where
  /-- An option or a name. -/
  | anything
  /-- A value of an option, and once there is one, anything else as well. -/
  | values (option : ListOption) (hasOne : Bool)
  /-- The step limit. -/
  | stepLimit
  /-- A name, whatever it looks like. -/
  | names
deriving DecidableEq

/-- Does an option still lack its value? -/
def Expecting.isOwed : Expecting → Bool
  | anything => false
  | values _ hasOne => !hasOne
  | stepLimit => true
  | names => false

/-- What the arguments read so far amount to. -/
structure Scan where
  options : Options := {}
  expecting : Expecting := .anything
deriving DecidableEq

namespace Scan

/-- An option `--name` or `--name=value`. -/
def long? (options : Options) (name : String) (attached : Option (List Char)) : Option Scan :=
  match name, attached with
  | "input", none => some ⟨options, .values .input false⟩
  | "input", some value => (options.addValue? .input value).map (⟨·, .anything⟩)
  | "phases", none => some ⟨options, .values .phases false⟩
  | "phases", some value => (options.addValue? .phases value).map (⟨·, .anything⟩)
  | "max-steps", none => some ⟨options, .stepLimit⟩
  | "max-steps", some value => (options.setMaxSteps? value).map (⟨·, .anything⟩)
  | _, none => (options.setFlag? name).map (⟨·, .anything⟩)
  | _, some _ => none

/-- An option `-i`, with or without an attached value. -/
def short? (options : Options) : List Char → Option Scan
  | ['i'] => some ⟨options, .values .input false⟩
  | 'i' :: '=' :: value => (options.addValue? .input value).map (⟨·, .anything⟩)
  | 'i' :: value => (options.addValue? .input value).map (⟨·, .anything⟩)
  | _ => none

/-- An argument that is a value or a name, as expected. -/
def plain? (scan : Scan) (argument : String) : Option Scan :=
  match scan.expecting with
  | .values option _ =>
    (scan.options.addValue? option argument.toList).map (⟨·, .values option true⟩)
  | .stepLimit => (scan.options.setMaxSteps? argument.toList).map (⟨·, .anything⟩)
  | .anything | .names => (scan.options.setName? argument).map (⟨·, scan.expecting⟩)

/-- Splits the text after `--` at its first equals sign. -/
def nameAndValue (cs : List Char) : String × Option (List Char) :=
  let name := String.ofList (cs.takeWhile (· ≠ '='))
  match cs.dropWhile (· ≠ '=') with
  | [] => (name, none)
  | _ :: value => (name, some value)

/-- Does a list of values go on with this negative number? -/
def takesNegative (scan : Scan) (digits : List Char) : Bool :=
  match scan.expecting with
  | .values _ _ => digits.all Char.isDigit
  | _ => false

/-- Reads one more argument. -/
def next? (scan : Scan) (argument : String) : Option Scan :=
  if scan.expecting = .names then scan.plain? argument
  else
    match argument.toList with
    | ['-', '-'] =>
      if scan.expecting.isOwed then none else some { scan with expecting := .names }
    | '-' :: '-' :: rest =>
      let (name, value) := nameAndValue rest
      if scan.expecting.isOwed then none else long? scan.options name value
    | '-' :: c :: rest =>
      if scan.takesNegative (c :: rest) then scan.plain? argument
      else if scan.expecting.isOwed then none
      else short? scan.options (c :: rest)
    | _ => scan.plain? argument

end Scan

/-- The options that the arguments give. -/
def Options.ofArguments? (arguments : List String) : Option Options := do
  let scan ← arguments.foldlM Scan.next? {}
  if scan.expecting.isOwed || !scan.options.areConsistent then none else some scan.options

/-- The request that the arguments make. -/
def Request.ofArguments? (arguments : List String) : Option Request :=
  (Options.ofArguments? arguments).map fun options => ⟨options.source, options.task⟩

/-! ## Asking for help -/

/-- Is the argument `--help`, or does it start with `-h`? -/
def isHelp (argument : String) : Bool :=
  argument.toList = "--help".toList || "-h".toList.isPrefixOf argument.toList

/-- Does one of the arguments ask for help, with nothing wrong before it? -/
def Scan.meetsHelp : Scan → List String → Bool
  | _, [] => false
  | scan, argument :: rest =>
    (isHelp argument && scan.expecting ≠ .names && !scan.expecting.isOwed) ||
      (scan.next? argument).any (meetsHelp · rest)

/-- Do the arguments ask for help? -/
def asksForHelp (arguments : List String) : Bool := Scan.meetsHelp {} arguments

end Intcode.CommandLine
