import Intcode.Text.Decimal

/-!
# Logging

Model of what is logged through `tracing`, and of the subscriber that `main` installs for it. A
`Record` is one event. A `Logger` is the subscriber: its filter decides which records are shown, and
its formatting layer writes them to standard error. Neither is part of the program, so both can be
anything here; what the program decides is which records there are, and which filter is in force if
the environment names none.

* `Logger.Quiet`: the filters that show nothing less important than a warning. The one that is in
  force by default is of this kind (`quiet_standard`), and so is one that shows nothing.
-/

namespace Intcode

/-- How important a record is, the least important first. Nothing is logged as an error. -/
inductive Level where
  | trace
  | debug
  | info
  | warn
deriving DecidableEq

/-- The name of a level, in five columns. -/
def Level.text : Level → String
  | trace => "TRACE"
  | debug => "DEBUG"
  | info => " INFO"
  | warn => " WARN"

/-- Something that is logged. -/
structure Record where
  level : Level
  /-- The part of the program that it comes from. -/
  target : String
  message : String
  /-- Names and values, as they are written. -/
  fields : List (String × String) := []
  /-- The machine of a chain that it comes from (the span `amplifier`). -/
  amplifier : Option Nat := none
deriving DecidableEq

namespace Record

/-- The record as it is written, time and colours apart. -/
def text (record : Record) : String :=
  let context := match record.amplifier with
    | some j => "amplifier\x7bidx=" ++ Decimal.ofNat j ++ "\x7d: "
    | none => ""
  record.level.text ++ " " ++ context ++ record.target ++ ": " ++ record.message ++
    String.join (record.fields.map fun (name, value) => " " ++ name ++ "=" ++ value) ++ "\n"

end Record

/-- Who shows what is logged. -/
structure Logger where
  /-- Is a record shown? -/
  shows : Record → Bool
  /-- How a record is written that is shown after so many others. What is written may depend on more
  than the record, on the time for one. -/
  render : Nat → Record → String

namespace Logger

/-- The records that are shown. -/
def shown (logger : Logger) (records : List Record) : List Record := records.filter logger.shows

/-- What is written about records that are shown. -/
def text (logger : Logger) (records : Array Record) : String :=
  String.join (records.toList.mapIdx logger.render)

/-- The filter `intcode=warn,intcode_run=warn`, which looks at how the target begins. -/
def showsByDefault (record : Record) : Bool :=
  ["intcode", "intcode_run"].any (fun target => target.toList.isPrefixOf record.target.toList) &&
    record.level = .warn

/-- The logger that is in force if the environment names none. A span is for debugging, so its
filter drops the spans as well. -/
def standard : Logger where
  shows := showsByDefault
  render _ record := { record with amplifier := none }.text

/-- A logger that shows nothing. -/
def off : Logger where
  shows _ := false
  render _ record := record.text

/-- **Nothing less important than a warning is shown.** -/
def Quiet (logger : Logger) : Prop := ∀ record, logger.shows record = true → record.level = .warn

/-! ## Lemmas -/

theorem quiet_standard : standard.Quiet := by
  intro record h
  exact of_decide_eq_true (Bool.and_eq_true_iff.mp h).2

theorem quiet_off : off.Quiet := nofun

variable {logger : Logger}

/-- A quiet logger does not show what is less important than a warning. -/
theorem Quiet.shown_eq_nil (h : logger.Quiet) {records : List Record}
    (hrecords : ∀ record ∈ records, record.level ≠ .warn) : logger.shown records = [] :=
  List.filter_eq_nil_iff.mpr fun record hmem hshows => hrecords record hmem (h record hshows)

theorem Quiet.shown_singleton_eq_nil (h : logger.Quiet) {record : Record}
    (hrecord : record.level ≠ .warn) : logger.shown [record] = [] :=
  h.shown_eq_nil fun _ hmem => List.mem_singleton.mp hmem ▸ hrecord

/-- What is written about nothing else than one record. -/
theorem text_shown_singleton (logger : Logger) (record : Record) :
    logger.text (logger.shown [record]).toArray =
      if logger.shows record then logger.render 0 record else "" := by
  cases h : logger.shows record with
  | true => simp [text, shown, h, String.join]
  | false => simp [text, shown, h, String.join]

end Logger

end Intcode
