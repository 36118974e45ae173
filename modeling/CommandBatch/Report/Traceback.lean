import CommandBatch.Engine.Basic
import CommandBatch.Report.Json

/-!
# Reports of failures

A failure is reported with the most recent steps of the trace, as a text with a mark under the
character at fault, or as structured data. Lines, steps and characters are counted, which never comes
near a limit; but the code and the column of a failure may be any number that a host has given it,
and then its report may be more than can be written.
-/

namespace CommandBatch.Report

open Decimal Text

/-- How many steps a report shows unless told otherwise. -/
def usualContext : Int := 5

/-- The pairs of a snapshot. -/
def snapshotText (items : List (String × String)) : String :=
  ", ".intercalate (items.map fun (name, value) => name ++ "=" ++ value)

/-- The lines of a step: where it was, its text, and the variables behind it if they are asked for
and known. Lines are counted from one. -/
def stepLines (verbose : Bool) (entry : TraceEntry) : List String :=
  let place :=
    match entry.line with
    | some i => wholeText (i + 1)
    | none => "?"
  let head := s!"  Line {place}, step {wholeText entry.step}: {strip entry.text}"
  match verbose, entry.snapshot with
  | true, some items => [head, "    Env snapshot: " ++ snapshotText items]
  | _, _ => [head]

/-- The text of a line without its blank margins, and under it a mark in a column. -/
def markLines (text : String) (column : Int) : List String :=
  ["    " ++ strip text, "    " ++ String.ofList (List.replicate column.toNat ' ') ++ "^"]

/-- The code and message of a failure, and the description of the code where the message is
another. -/
def verdictLines (f : Failure) : List String :=
  s!"{codeName f.code} ({codeHex f.code}): {f.message}" ::
    if f.message = codeDescription f.code then [] else ["  " ++ codeDescription f.code]

/-- The report of a failure after some steps. -/
def text (steps : List TraceEntry) (f : Failure) (verbose : Bool) : String :=
  "\n".intercalate <|
    "Traceback (most recent line last):" :: steps.flatMap (stepLines verbose) ++
      (match f.text, f.column with
      | some text, some column => markLines text column
      | _, _ => []) ++
      verdictLines f

/-- A number that may be missing. -/
def wholeOrNull : Option Int → Json
  | some i => .whole i
  | none => .null

/-- A step as structured data. -/
def stepJson (entry : TraceEntry) : Json :=
  .fields <|
    [("step_index", .whole entry.step), ("line_index", wholeOrNull entry.line),
      ("text", .text entry.text), ("command", .text entry.command), ("code", .whole entry.code)] ++
    match entry.snapshot with
    | some items => [("env_snapshot", .fields (items.map fun (k, v) => (k, .text v)))]
    | none => []

/-- The column that a host has given a failure. -/
def givenColumn : Reason → Option Int
  | .thrown _ _ column => column
  | _ => none

/-- There is a position in a text for a number. -/
def isIndex (i : Int) : Bool := -0x8000000000000000 ≤ i && i < 0x8000000000000000

/-- The report of a failure after some steps, unless its mark has no position. -/
def toText (steps : List TraceEntry) (f : Failure) (verbose : Bool) :
    Except ConversionError String :=
  if f.text.isNone || (givenColumn f.reason).all isIndex then .ok (text steps f verbose)
  else .error .beyondIndex

/-- The report of a failure after some steps, as structured data. -/
def json (steps : List TraceEntry) (f : Failure) : Json :=
  .fields [
    ("error", .fields [
      ("code", .whole f.code), ("name", .text (codeName f.code)), ("message", .text f.message),
      ("description", .text (codeDescription f.code)),
      ("line_index", wholeOrNull (f.line.map Int.ofNat)), ("column", wholeOrNull f.column),
      ("text", match f.text with
        | some s => .text s
        | none => .null)]),
    ("trace", .list (steps.map stepJson))]

/-- The codes of a failure and of some steps, and the column that a host has given the failure, can
be written. -/
def isWritable (steps : List TraceEntry) (f : Failure) : Bool :=
  Decimal.isWritable f.code && (givenColumn f.reason).all Decimal.isWritable &&
    steps.all fun entry => Decimal.isWritable entry.code

/-- The text of the structured report of a failure after some steps, as far as its numbers can be
written. -/
def toJson (steps : List TraceEntry) (f : Failure) : Except ConversionError String :=
  if isWritable steps f then .ok (json steps f).pretty else .error .unwritable

end CommandBatch.Report
