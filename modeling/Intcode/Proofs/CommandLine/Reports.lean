import Intcode.CommandLine
import Intcode.Proofs.Machine.Accounting
import Intcode.Proofs.Machine.Log
import Intcode.Proofs.Text.Unambiguous

/-!
# Reports read back

`run` reports on a run in lines of text or as one JSON object (`RunReport`). Both can be read back,
and say the same: `RunReport.ofJson?` reads the object field by field and takes what it needs by its
name, and `RunReport.Lists` says what the lines give. There is a report if the run halts. A text
that is no program, and a run that faults, have the message of the fault on standard error instead,
the same for both formats, and a run that does not end has nothing.

The message is not all that a run that faults leaves on standard error. `Machine::run` warns of the
fault, `main` shows warnings unless the environment says otherwise, and the warning comes first.
Only with a logger like `Logger.off` is the message alone.

Results:
* `splitOn_lines`: the lines of a text.
* `JsonValue.readObject?_jsonObject`: the fields of an object read back.
* `ofJson?_json`, `lists_plain`: both reports of a run read back.
* `exists_runs_of_answers`, `answers_iff_of_runs`: a run is answered if it ends, and with what it
  comes to.
* **`reports_agree`**: all that for every text and every run.
* `warning_precedes_message`: a run that faults, with the logger that is in force by default.
-/

namespace Intcode.CommandLine

/-! ## Lines -/

/-- A text of lines is split into the lines, and what is behind the last of them is empty. -/
theorem splitOn_lines {lines : List (List Char)} (h : ∀ l ∈ lines, '\n' ∉ l) :
    (lines.flatMap (· ++ ['\n'])).splitOn '\n' = lines ++ [[]] := by
  refine (Text.cuts_iff.mp ⟨by simp, ?_, ?_⟩).symm
  · intro piece hpiece
    rcases List.mem_append.mp hpiece with hmem | hmem
    · exact h piece hmem
    · simp_all
  · clear h
    induction lines with
    | nil => rfl
    | cons l lines ih =>
      rw [List.cons_append, List.intercalate_cons_of_ne_nil (by simp), ih, List.flatMap_cons]

/-! ## JSON objects -/

/-- A value of the kinds that a report has. -/
inductive JsonValue where
  | null
  | number (n : Int)
  | array (elements : List Word)
deriving DecidableEq

namespace JsonValue

/-- An integer spelled as it would be written. -/
def readNumber? (cs : List Char) : Option Int :=
  (Decimal.int? cs).filter fun n => (Decimal.ofInt n).toList = cs

/-- The value at the front of a text, and what follows it. -/
def read? : List Char → Option (JsonValue × List Char)
  | 'n' :: 'u' :: 'l' :: 'l' :: rest => some (null, rest)
  | '[' :: cs =>
    match cs.dropWhile (· ≠ ']') with
    | [] => none
    | _ :: rest => (Program.jsonElements? (cs.takeWhile (· ≠ ']'))).map (array ·, rest)
  | cs => (readNumber? (cs.takeWhile Decimal.isNumeral)).map
      (number ·, cs.dropWhile Decimal.isNumeral)

/-- The field at the front of a text, its name in quotation marks, and what follows it. -/
def readField? : List Char → Option ((String × JsonValue) × List Char)
  | '"' :: cs =>
    match cs.dropWhile (· ≠ '"') with
    | '"' :: ':' :: rest =>
      (read? rest).map fun (value, rest) => ((String.ofList (cs.takeWhile (· ≠ '"')), value), rest)
    | _ => none
  | _ => none

/-- At most so many fields with commas between them, up to the closing brace. -/
def readFields? : Nat → List Char → Option (List (String × JsonValue))
  | 0, _ => none
  | count + 1, cs =>
    match readField? cs with
    | some (field, ['\x7d']) => some [field]
    | some (field, ',' :: rest) => (readFields? count rest).map (field :: ·)
    | _ => none

/-- The fields of an object, of which there is at least one. -/
def readObject? : List Char → Option (List (String × JsonValue))
  | '\x7b' :: cs => readFields? cs.length cs
  | _ => none

/-- A word, or null. -/
def word? : JsonValue → Option (Option Word)
  | null => some none
  | number n => (Word.ofInt? n).map some
  | array _ => none

/-- An array of words. -/
def words? : JsonValue → Option (List Word)
  | array elements => some elements
  | null | number _ => none

/-- A number that is not negative. -/
def nat? : JsonValue → Option Nat
  | number (.ofNat n) => some n
  | null | number (.negSucc _) | array _ => none

/-- The text is read as the value wherever the object goes on behind it. -/
def Spells (text : String) (value : JsonValue) : Prop :=
  ∀ c ∈ [',', '\x7d'], ∀ rest, read? (text.toList ++ c :: rest) = some (value, c :: rest)

theorem spells_null : Spells "null" null := fun _ _ _ => rfl

/-- A text that starts like a number is read as one. -/
theorem read?_of_isNumeral {c : Char} (h : Decimal.isNumeral c = true) (cs : List Char) :
    read? (c :: cs) = (readNumber? ((c :: cs).takeWhile Decimal.isNumeral)).map
      (number ·, (c :: cs).dropWhile Decimal.isNumeral) := by
  unfold read?
  split
  · next heq =>
    rw [(List.cons.inj heq).1] at h
    cases h
  · next heq =>
    rw [(List.cons.inj heq).1] at h
    cases h
  · rfl

theorem spells_ofInt (n : Int) : Spells (Decimal.ofInt n) (number n) := by
  intro c hc rest
  have hnumerals : ∀ d ∈ (Decimal.ofInt n).toList, Decimal.isNumeral d = true :=
    fun d => Decimal.isNumeral_of_mem_ofInt
  have hstop : ∀ d ∈ (c :: rest).head?, Decimal.isNumeral d = false := by
    intro d hd
    cases hd
    rcases List.mem_pair.mp hc with rfl | rfl <;> rfl
  have hread : readNumber? (Decimal.ofInt n).toList = some n := by
    rw [readNumber?, Decimal.int?_ofInt]
    simp [Option.filter]
  have htake := Text.takeWhile_append_eq hnumerals hstop
  have hdrop := Text.dropWhile_append_eq hnumerals hstop
  cases hdigits : (Decimal.ofInt n).toList with
  | nil =>
    rw [hdigits] at hread
    cases hread
  | cons d digits =>
    rw [hdigits] at hnumerals hread htake hdrop
    rw [List.cons_append, read?_of_isNumeral (hnumerals d List.mem_cons_self),
      ← List.cons_append, htake, hdrop, hread]
    rfl

theorem spells_ofNat (n : Nat) : Spells (Decimal.ofNat n) (number n) := spells_ofInt n

theorem spells_wordsJson (words : List Word) : Spells (Program.wordsJson words) (array words) := by
  intro c _ rest
  have hbracket : ']' ∉ (Program.wordsText words).toList :=
    Program.not_mem_wordsText rfl (by decide) (by decide) words
  have htext : (Program.wordsJson words).toList ++ c :: rest =
      '[' :: ((Program.wordsText words).toList ++ ']' :: c :: rest) := by
    simp [Program.wordsJson]
  obtain ⟨htake, hdrop⟩ := Text.span_append_cons hbracket (c :: rest)
  rw [htext, read?, htake, hdrop, Program.jsonElements?_wordsText]
  rfl

theorem spells_jsonWord (word : Option Word) :
    ∃ value, Spells (jsonWord word) value ∧ value.word? = some word := by
  cases word with
  | none => exact ⟨null, spells_null, rfl⟩
  | some word =>
    refine ⟨number word.val, spells_ofInt word.val, ?_⟩
    rw [word?, Word.ofInt?_val]
    rfl

/-- A field, as it is written and as it is read. -/
structure Field where
  key : String
  text : String
  value : JsonValue
  quote_not_mem : '"' ∉ key.toList
  spells : Spells text value

/-- The field as it is written. -/
def Field.written (field : Field) : List Char :=
  '"' :: (field.key.toList ++ '"' :: ':' :: field.text.toList)

theorem readField?_written (field : Field) {c : Char} (hc : c ∈ [',', '\x7d']) (rest : List Char) :
    readField? (field.written ++ c :: rest) = some ((field.key, field.value), c :: rest) := by
  have htext : field.written ++ c :: rest =
      '"' :: (field.key.toList ++ '"' :: ':' :: (field.text.toList ++ c :: rest)) := by
    simp [Field.written]
  obtain ⟨htake, hdrop⟩ :=
    Text.span_append_cons field.quote_not_mem (':' :: (field.text.toList ++ c :: rest))
  rw [htext, readField?, htake, hdrop]
  simp only [field.spells c hc rest, Option.map_some, String.ofList_toList]

/-- **Fields read back**, one after the other. -/
theorem readFields?_written {fields : List Field} (hne : fields ≠ []) {count : Nat}
    (hcount : ([','].intercalate (fields.map Field.written)).length < count) :
    readFields? count ([','].intercalate (fields.map Field.written) ++ ['\x7d']) =
      some (fields.map fun field => (field.key, field.value)) := by
  induction fields generalizing count with
  | nil => exact absurd rfl hne
  | cons field rest ih =>
    obtain ⟨count, rfl⟩ : ∃ k, count = k + 1 := Nat.exists_eq_succ_of_ne_zero (by omega)
    by_cases hnil : rest = []
    · subst hnil
      simp only [List.map_cons, List.map_nil, List.intercalate_singleton]
      rw [readFields?, readField?_written field (by simp)]
      rfl
    · have hmap : rest.map Field.written ≠ [] := by simpa using hnil
      rw [List.map_cons, List.intercalate_cons_of_ne_nil hmap] at hcount ⊢
      simp only [List.append_assoc, List.cons_append, List.nil_append,
        List.length_append, List.length_cons] at hcount ⊢
      rw [readFields?, readField?_written field (by simp)]
      change (readFields? count _).map _ = _
      rw [ih hnil (by omega)]
      rfl

/-- **An object reads back**, if it has any fields. -/
theorem readObject?_jsonObject {fields : List Field} (hne : fields ≠ []) :
    readObject? (jsonObject (fields.map fun field => (field.key, field.text))).toList =
      some (fields.map fun field => (field.key, field.value)) := by
  have hobject : (jsonObject (fields.map fun field => (field.key, field.text))).toList =
      '\x7b' :: ([','].intercalate (fields.map Field.written) ++ ['\x7d']) := by
    have hwritten : (fun field : Field => ("\"" ++ field.key ++ "\":" ++ field.text).toList) =
        Field.written := by
      funext field
      simp [Field.written]
    rw [jsonObject, String.toList_append, String.toList_append, String.toList_intercalate,
      List.map_map, List.map_map, ← hwritten]
    rfl
  rw [hobject, readObject?, readFields?_written hne]
  simp

end JsonValue

/-! ## Reports -/

namespace RunReport

/-- The report that the fields of an object make, in whatever order they stand. -/
def ofFields? (fields : List (String × JsonValue)) : Option RunReport := do
  let last ← (← fields.lookup "last_output").word?
  let outputs ← (← fields.lookup "outputs").words?
  let steps ← (← fields.lookup "steps").nat?
  let memory ← (← fields.lookup "memory").words?
  return { last, outputs, steps, memory }

/-- The report that one line of JSON stands for. -/
def ofJson? (text : String) : Option RunReport :=
  if text.toList.getLast? = some '\n' then
    (JsonValue.readObject? text.toList.dropLast).bind ofFields?
  else none

/-- **The JSON report reads back.** -/
theorem ofJson?_json (report : RunReport) : ofJson? report.json = some report := by
  obtain ⟨last, hspells, hlast⟩ := JsonValue.spells_jsonWord report.last
  let fields : List JsonValue.Field := [
    ⟨"last_output", jsonWord report.last, last, by decide, hspells⟩,
    ⟨"outputs", Program.wordsJson report.outputs, .array report.outputs, by decide,
      JsonValue.spells_wordsJson report.outputs⟩,
    ⟨"steps", Decimal.ofNat report.steps, .number report.steps, by decide,
      JsonValue.spells_ofNat report.steps⟩,
    ⟨"memory", Program.wordsJson report.memory, .array report.memory, by decide,
      JsonValue.spells_wordsJson report.memory⟩]
  have hjson : report.json.toList =
      (jsonObject (fields.map fun field => (field.key, field.text))).toList ++ ['\n'] :=
    String.toList_append
  have hfields : ofFields? (fields.map fun field => (field.key, field.value)) = some report := by
    change (last.word?).bind _ = _
    rw [hlast]
    rfl
  rw [ofJson?, hjson, List.getLast?_concat, if_pos rfl, List.dropLast_concat,
    JsonValue.readObject?_jsonObject (List.cons_ne_nil _ _)]
  exact hfields

/-- The last line of a plain report on these outputs. -/
def finalLine (outputs : List Word) : String :=
  "last output: " ++ outputs.getLast?.elim "none" Word.text

/-- **Read line by line, the text gives the outputs in their order**, and its last line names the
last of them, or none if there is none. -/
def Lists (text : String) (outputs : List Word) : Prop :=
  ∃ lines final, text.toList.splitOn '\n' = lines ++ [final, []] ∧
    lines.mapM Word.ofChars? = some outputs ∧ final = (finalLine outputs).toList ∧
    (final = "last output: none".toList ↔ outputs = [])

/-- A plain report is its lines, each with a line feed behind it. -/
theorem toList_plain {report : RunReport} (h : report.last = report.outputs.getLast?) :
    report.plain.toList =
      (report.outputs.map (fun word => word.text.toList) ++
        [(finalLine report.outputs).toList]).flatMap (· ++ ['\n']) := by
  have hlast : report.plain =
      String.join (report.outputs.map fun word => line word.text) ++
        line (finalLine report.outputs) := by
    rw [plain, h, finalLine]
    cases report.outputs.getLast? <;> rfl
  rw [hlast]
  simp [line, String.toList_join, List.flatMap_map]

theorem newline_not_mem_finalLine (outputs : List Word) : '\n' ∉ (finalLine outputs).toList := by
  rw [finalLine, String.toList_append, List.mem_append, not_or]
  refine ⟨by decide, ?_⟩
  cases outputs.getLast? with
  | none => decide
  | some word => exact word.not_mem_text rfl (by decide)

/-- No word is written like the missing one. -/
theorem finalLine_eq_iff {outputs : List Word} :
    (finalLine outputs).toList = "last output: none".toList ↔ outputs = [] := by
  constructor
  · intro h
    refine List.getLast?_eq_none_iff.mp ?_
    cases hlast : outputs.getLast? with
    | none => rfl
    | some word =>
      rw [finalLine, hlast, String.toList_append] at h
      have htext : word.text.toList = "none".toList := List.append_cancel_left h
      have hn : 'n' ∉ word.text.toList := word.not_mem_text rfl (by decide)
      rw [htext] at hn
      exact absurd (by decide) hn
  · rintro rfl
    rfl

/-- **The plain report reads back**, if the last output is the last of them. -/
theorem lists_plain {report : RunReport} (h : report.last = report.outputs.getLast?) :
    Lists report.plain report.outputs := by
  have hlines : ∀ l ∈ report.outputs.map (fun word => word.text.toList) ++
      [(finalLine report.outputs).toList], '\n' ∉ l := by
    refine List.forall_mem_append.mpr ⟨fun l hl => ?_, fun l hl => ?_⟩
    · obtain ⟨word, -, rfl⟩ := List.mem_map.mp hl
      exact word.not_mem_text rfl (by decide)
    · rw [List.mem_singleton.mp hl]
      exact newline_not_mem_finalLine report.outputs
  refine ⟨report.outputs.map fun word => word.text.toList, _, ?_, ?_, rfl, finalLine_eq_iff⟩
  · rw [toList_plain h, splitOn_lines hlines, List.append_assoc]
    rfl
  · exact Word.mapM_ofChars?_text report.outputs

/-- The report in a format. -/
def text (report : RunReport) : Format → String
  | .plain => report.plain
  | .json => report.json

end RunReport

/-! ## Responses -/

/-- With enough fuel, the request is answered like this if its source holds the text. -/
def Answers (logger : Logger) (request : Request) (text : String) (response : Response) : Prop :=
  ∃ fuel, respond logger fuel request (.ok text) = some response

variable {logger : Logger} {source : Source} {input : List Word} {limit : Option Nat}
  {format : Format} {text : String} {program : Program} {response : Response}

/-- A text that is no program is answered with the reason, whatever is asked for and shown. -/
theorem answers_iff_of_parse_eq_error {request : Request} {fault : Fault}
    (h : Program.parse text = .error fault) :
    Answers logger request text response ↔ response = .failure "" fault.message := by
  have hrespond : ∀ fuel,
      respond logger fuel request (.ok text) = some (.failure "" fault.message) := by
    intro fuel
    rw [respond, h]
  unfold Answers
  simp only [hrespond, exists_const, Option.some.injEq, eq_comm]

/-- What is printed about a run that has ended, behind the log. -/
def Response.ofRun? (log : String) (format : Format) (after : Machine) :
    Ending (Option Word) → Option Response
  | .finished _ => some (.success log ((RunReport.ofState after.state).text format))
  | .faulted fault => some (.failure log fault.message)
  | .unfinished => none

/-- The log of a run, that the program was read included. -/
def logOf (logger : Logger) (fuel : Nat) (machine : Machine) : String :=
  logger.text (machine.runLog logger fuel (logger.shown [loadRecord machine.program]).toArray)

/-- This is what a run has logged when it ends, however much fuel it has. -/
def Logs (logger : Logger) (machine : Machine) (log : String) : Prop :=
  ∀ fuel, (machine.run fuel).2 ≠ .unfinished → logOf logger fuel machine = log

theorem logs_of_run {machine after : Machine} {fuel : Nat} {ending : Ending (Option Word)}
    (hrun : machine.run fuel = (after, ending)) (hended : ending ≠ .unfinished) :
    Logs logger machine (logOf logger fuel machine) := by
  intro more hmore
  rw [logOf, logOf, Machine.runLog_unique rfl hmore hrun hended]

theorem respond_run (h : Program.parse text = .ok program) (fuel : Nat) :
    respond logger fuel ⟨source, .run input limit format⟩ (.ok text) =
      Response.ofRun? (logOf logger fuel { program, limit, input := .queue input }) format
        (Machine.run fuel { program, limit, input := .queue input }).1
        (Machine.run fuel { program, limit, input := .queue input }).2 := by
  rw [respond, h]
  simp only [Task.log, Task.output, runReport]
  rcases Machine.run fuel { program, limit, input := .queue input } with ⟨after, ending⟩
  cases ending with
  | finished last => cases format <;> rfl
  | faulted fault => rfl
  | unfinished => rfl

/-- A quiet logger shows the warning of the fault that ends a run. -/
theorem logOf_of_quiet (hquiet : logger.Quiet) {machine after : Machine} {fuel : Nat}
    {ending : Ending (Option Word)} (hrun : machine.run fuel = (after, ending)) :
    logOf logger fuel machine =
      logger.text (logger.shown (Machine.warnings after ending)).toArray := by
  have hload : logger.shown [loadRecord machine.program] = [] :=
    hquiet.shown_singleton_eq_nil nofun
  rw [logOf, hload, Machine.runLog_of_quiet hquiet hrun]
  simp

/-- Only a run that ends is answered. -/
theorem exists_runs_of_answers (h : Program.parse text = .ok program)
    (hanswers : Answers logger ⟨source, .run input limit format⟩ text response) :
    ∃ after ending, Machine.Runs { program, limit, input := .queue input } after ending := by
  obtain ⟨fuel, hfuel⟩ := hanswers
  rw [respond_run h] at hfuel
  rcases hrun : Machine.run fuel { program, limit, input := .queue input } with ⟨after, ending⟩
  rw [hrun] at hfuel
  refine ⟨after, ending, ?_, fuel, hrun⟩
  rintro rfl
  cases hfuel

/-- **A run that ends is answered with what it comes to**, behind what it has logged, in any format;
a quiet logger shows the warning of its fault and nothing else. -/
theorem answers_iff_of_runs (h : Program.parse text = .ok program) {after : Machine}
    {ending : Ending (Option Word)}
    (hruns : Machine.Runs { program, limit, input := .queue input } after ending) :
    ∃ log, Logs logger { program, limit, input := .queue input } log ∧
      (logger.Quiet →
        log = logger.text (logger.shown (Machine.warnings after ending)).toArray) ∧
      ∀ format response, Answers logger ⟨source, .run input limit format⟩ text response ↔
        Response.ofRun? log format after ending = some response := by
  obtain ⟨hended, fuel, hrun⟩ := hruns
  have hlogs : Logs logger _ _ := logs_of_run hrun hended
  refine ⟨_, hlogs, fun hquiet => logOf_of_quiet hquiet hrun, fun format response =>
    ⟨?_, fun hresponse => ?_⟩⟩
  · rintro ⟨more, hmore⟩
    rw [respond_run h] at hmore
    rcases hother : Machine.run more { program, limit, input := .queue input } with
      ⟨last, otherwise⟩
    rw [hother] at hmore
    have hended' : otherwise ≠ .unfinished := by
      rintro rfl
      cases hmore
    obtain ⟨rfl, rfl⟩ := Machine.Runs.unique ⟨hended', more, hother⟩ ⟨hended, fuel, hrun⟩
    rw [← hmore, hlogs more (by rwa [hother])]
  · refine ⟨fuel, ?_⟩
    rw [respond_run h, hrun]
    exact hresponse

/-! ## Main result -/

/-- What the report on a run that has halted says: the last of the outputs, all of them, how many
instructions were executed, and memory, which has as many cells as the program has words. -/
theorem ofState_of_runs {after : Machine} {last : Option Word}
    (hruns : Machine.Runs { program, limit, input := .queue input } after (.finished last)) :
    after.state.last = last ∧ last = after.state.outputs.toList.getLast? ∧
      (Machine.reset { program, limit, input := .queue input }).Stops after.state.steps after
        .halted ∧
      after.state.memory.cells.toList.length = program.words.length := by
  obtain ⟨count, hstops, rfl⟩ := hruns.exists_stops_halted
  have hsteps := hstops.steps_eq_of_reset
  obtain ⟨final, hfinal, hhalted⟩ := hstops
  obtain ⟨rfl, -⟩ := Machine.eq_of_halted hhalted
  refine ⟨rfl, ?_, hsteps ▸ ⟨after, hfinal, hhalted⟩, ?_⟩
  · rw [Machine.proceed_eq_trace] at hfinal
    obtain ⟨hafter, hstop⟩ := Prod.mk.inj hfinal
    have htrace : Machine.trace count (Machine.reset { program, limit, input := .queue input }) =
        (after, _, none) := Prod.ext hafter (Prod.ext rfl hstop)
    rw [(Machine.balanced_of_trace rfl htrace).last_eq, Array.getLast?_toList]
  · exact Machine.size_of_proceed hfinal

/-- **The plain and the JSON report agree with each other and with the run.** Take any text, any
input values and any limit, with neither a listing nor a chain asked for. If the text is no program,
both formats have the status 1, nothing on standard output and one line with the message of the
fault on standard error, and nothing else can come of it. If the run faults, it is the same, except
that the log stands before that line. If the run halts, both have the status 0 and nothing but the
log on standard error; the lines of the plain report read back as the outputs in their order and
name the last of them, and the JSON report reads back as the same, the number of executed
instructions and the final memory, which has as many cells as the program has words. If the run does
not end, there is no response at all.

The log is what the logger shows of the run, the same for both formats. If the logger shows nothing
less important than a warning, it is the warning of the fault, if that is shown, and it is empty if
the run halts. -/
theorem reports_agree (logger : Logger) (options : Options) (hdisasm : options.disasm = false)
    (hphases : options.phases = []) (text : String) :
    let request (json : Bool) : Request := ⟨options.source, { options with json }.task⟩
    let machine (program : Program) : Machine :=
      { program, limit := options.maxSteps, input := .queue options.input }
    (∀ fault, Program.parse text = .error fault →
      ∀ json response, Answers logger (request json) text response ↔
        response = ⟨1, "", "fatal: " ++ fault.message ++ "\n"⟩) ∧
    (∀ program after fault, Program.parse text = .ok program →
      (machine program).Runs after (.faulted fault) →
      let warning : Record := {
        level := .warn
        target := "intcode::machine"
        message := "run faulted"
        fields := [("ip", Decimal.ofNat after.state.ip), ("steps", Decimal.ofNat after.state.steps),
          ("err", fault.message)] }
      ∃ log, Logs logger (machine program) log ∧
        (logger.Quiet → log = if logger.shows warning then logger.render 0 warning else "") ∧
        ∀ json response, Answers logger (request json) text response ↔
          response = ⟨1, "", log ++ "fatal: " ++ fault.message ++ "\n"⟩) ∧
    (∀ program after last, Program.parse text = .ok program →
      (machine program).Runs after (.finished last) →
      ∃ plain json log, Logs logger (machine program) log ∧ (logger.Quiet → log = "") ∧
        (∀ response, Answers logger (request false) text response ↔ response = ⟨0, plain, log⟩) ∧
        (∀ response, Answers logger (request true) text response ↔ response = ⟨0, json, log⟩) ∧
        RunReport.Lists plain after.state.outputs.toList ∧
        last = after.state.outputs.toList.getLast? ∧
        ∃ steps, (machine program).reset.Stops steps after .halted ∧
          after.state.memory.cells.toList.length = program.words.length ∧
          RunReport.ofJson? json = some {
            last
            outputs := after.state.outputs.toList
            steps
            memory := after.state.memory.cells.toList }) ∧
    (∀ program, Program.parse text = .ok program →
      (∀ after ending, ¬ (machine program).Runs after ending) →
      ∀ json response, ¬ Answers logger (request json) text response) := by
  intro request machine
  have hrequest (json : Bool) : request json = ⟨options.source, .run options.input
      options.maxSteps (if json then .json else .plain)⟩ := by
    simp [request, Options.task, Options.format, hdisasm, hphases]
  refine ⟨?_, ?_, ?_, ?_⟩
  · intro fault hparse json response
    exact answers_iff_of_parse_eq_error hparse
  · intro program after fault hparse hruns warning
    obtain ⟨log, hlogs, hlog, hanswers⟩ := answers_iff_of_runs hparse hruns
    refine ⟨log, hlogs, fun hquiet => ?_, fun json response => ?_⟩
    · exact (hlog hquiet).trans (logger.text_shown_singleton warning)
    · rw [hrequest, hanswers, Response.ofRun?, Option.some.injEq, eq_comm, Response.failure, line,
        ← String.append_assoc, ← String.append_assoc]
  · intro program after last hparse hruns
    obtain ⟨hlast, hback, hstops, hlength⟩ := ofState_of_runs hruns
    obtain ⟨log, hlogs, hlog, hanswers⟩ := answers_iff_of_runs hparse hruns
    let report := RunReport.ofState after.state
    refine ⟨report.plain, report.json, log, hlogs, hlog, fun response => ?_, fun response => ?_, ?_,
      hback, _, hstops, hlength, ?_⟩
    · rw [hrequest, hanswers, Response.ofRun?, Option.some.injEq, eq_comm]
      rfl
    · rw [hrequest, hanswers, Response.ofRun?, Option.some.injEq, eq_comm]
      rfl
    · exact RunReport.lists_plain (hlast.trans hback)
    · rw [RunReport.ofJson?_json, ← hlast]
      rfl
  · intro program hparse hendless json response hanswers
    rw [hrequest] at hanswers
    obtain ⟨after, ending, hruns⟩ := exists_runs_of_answers hparse hanswers
    exact hendless after ending hruns

/-- A program that puts out 7, a text that is none, and a program whose only word is no operation,
with the logger that is in force by default; and the last of them with nothing shown. -/
theorem reports_agree_seven :
    (∃ plain json,
      Answers .standard ⟨.standardInput, ({} : Options).task⟩ "104,7,99" ⟨0, plain, ""⟩ ∧
      Answers .standard ⟨.standardInput, ({ json := true } : Options).task⟩ "104,7,99"
        ⟨0, json, ""⟩ ∧
      RunReport.Lists plain [7] ∧
      RunReport.ofJson? json = some ⟨some 7, [7], 2, [104, 7, 99]⟩) ∧
    (∀ json, Answers .standard ⟨.standardInput, ({ json } : Options).task⟩ "104,7,halt"
      ⟨1, "", "fatal: " ++ (Fault.parse 2 "halt").message ++ "\n"⟩) ∧
    (∀ json, Answers .standard ⟨.standardInput, ({ json } : Options).task⟩ "50"
      ⟨1, "", " WARN intcode::machine: run faulted ip=0 steps=0 err=" ++
        (Fault.unknownOpcode 0 50 50).message ++ "\n" ++
        "fatal: " ++ (Fault.unknownOpcode 0 50 50).message ++ "\n"⟩) ∧
    ∀ json, Answers .off ⟨.standardInput, ({ json } : Options).task⟩ "50"
      ⟨1, "", "fatal: " ++ (Fault.unknownOpcode 0 50 50).message ++ "\n"⟩ := by
  have hparse : Program.parse "104,7,99" = .ok ⟨[104, 7, 99]⟩ := by decide
  have hreject : Program.parse "104,7,halt" = .error (.parse 2 "halt") := by decide
  have hshort : Program.parse "50" = .ok ⟨[50]⟩ := by decide
  let machine : Machine := { program := ⟨[104, 7, 99]⟩, input := .queue [] }
  have hruns : machine.Runs (machine.run 3).1 (.finished (some 7)) := ⟨by decide, 3, by decide⟩
  let broken : Machine := { program := ⟨[50]⟩, input := .queue [] }
  have hfaults : broken.Runs (broken.run 1).1 (.faulted (.unknownOpcode 0 50 50)) :=
    ⟨by decide, 1, by decide⟩
  have agree := reports_agree .standard {} rfl rfl
  refine ⟨?_, fun json => ?_, fun json => ?_, fun json => ?_⟩
  · obtain ⟨plain, json, log, -, hlog, hplain, hjson, hlists, -, steps, hstops, -, hread⟩ :=
      (agree "104,7,99").2.2.1 _ _ _ hparse hruns
    obtain rfl := hlog Logger.quiet_standard
    refine ⟨plain, json, (hplain _).mpr rfl, (hjson _).mpr rfl, hlists, ?_⟩
    rw [hread, ← hstops.steps_eq_of_reset]
    decide
  · exact ((agree "104,7,halt").1 _ hreject json _).mpr rfl
  · obtain ⟨log, -, hlog, hanswers⟩ := (agree "50").2.1 _ _ _ hshort hfaults
    rw [hlog Logger.quiet_standard] at hanswers
    exact (hanswers json _).mpr (by decide +kernel)
  · obtain ⟨log, -, hlog, hanswers⟩ :=
      (reports_agree .off {} rfl rfl "50").2.1 _ _ _ hshort hfaults
    rw [hlog Logger.quiet_off] at hanswers
    exact (hanswers json _).mpr rfl

/-- **The message is not alone on standard error when a run faults**: with the logger that is in
force by default, a line that does not begin with `fatal` stands before it. -/
theorem warning_precedes_message :
    ∃ fault response,
      Program.parse "50" = .ok ⟨[50]⟩ ∧
      (∃ after, Machine.Runs { program := ⟨[50]⟩, input := .queue [] } after (.faulted fault)) ∧
      respond .standard 1 ⟨.standardInput, ({} : Options).task⟩ (.ok "50") = some response ∧
      response.stderr ≠ "fatal: " ++ fault.message ++ "\n" ∧
      response.stderr =
        " WARN intcode::machine: run faulted ip=0 steps=0 err=" ++ fault.message ++ "\n" ++
          "fatal: " ++ fault.message ++ "\n" := by
  let machine : Machine := { program := ⟨[50]⟩, input := .queue [] }
  have hruns : machine.Runs (machine.run 1).1 (.faulted (.unknownOpcode 0 50 50)) :=
    ⟨by decide, 1, by decide⟩
  refine ⟨.unknownOpcode 0 50 50, _, by decide, ⟨_, hruns⟩, rfl, ?_, ?_⟩
  · decide +kernel
  · decide +kernel

end Intcode.CommandLine
