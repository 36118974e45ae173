import CommandBatch.Engine.Basic

/-!
# The standard commands

The commands that a host can install on an engine: output, variables, jumps, pauses, help, and three
ways to end a batch.
-/

namespace CommandBatch.Standard

open Decimal Text

variable {σ : Type}

/-- A parameter that has to be given. -/
def required (types : List String) : Parameter := ⟨types, false, "|".intercalate types⟩

/-- A parameter that may be left out. -/
def optional (type : String) : Parameter := ⟨[type], true, "?" ++ type⟩

/-- The most arguments that are written at once. -/
def printLimit : Nat := 8

/-- Writes the arguments to the output, separated by spaces. -/
def print : Handler σ := fun args =>
  .converted (args.mapM Value.format) fun texts =>
    .andThen (.output (" ".intercalate texts)) .silent

/-- Stores a value in a variable. -/
def set : Handler σ
  | [target, value] =>
    .converted target.datum.toText fun name =>
      .andThen (.setVariable name value.type value.datum) .silent
  | _ => .silent

/-- Removes a variable. -/
def delete : Handler σ
  | [target] =>
    .converted target.datum.toText fun name => .andThen (.deleteVariable name) .silent
  | _ => .silent

/-- The whole number that an argument denotes. Floating-point numbers have to be whole. -/
def wholeOf (command : String) (value : Value) : Except Fault Int :=
  match value.datum with
  | .float x =>
    match isWhole x, truncate? x with
    | true, some i => .ok i
    | _, _ => .error (.ofReason (.notWhole command (floatText x)))
  | d => d.toWhole.mapError .ofConversion

/-- Lets the batch go on at a line, counted from zero. -/
def goto : Handler σ
  | [target] => .orRaise (fun i => .andThen (.jump (.whole i)) .silent) (wholeOf "GOTO" target)
  | _ => .silent

/-- Pauses the batch for a number of seconds. -/
def wait : Handler σ
  | [seconds] =>
    .converted seconds.datum.toFloat fun x =>
      if x < 0.0 then
        .converted seconds.datum.toText fun shown => .failWith (.negativeDelay "WAIT" shown)
      else .wait (.sleep x) .silent
  | _ => .silent

/-- The column that descriptions in a list of commands begin behind. -/
def usageWidth : Nat := 40

/-- The line of a command in a list of commands: its usage, filled up to the column of the
descriptions, and its description. -/
def helpLine (s : Signature) : String :=
  let usage := s.usage.toList
  let fill := List.replicate (usageWidth - usage.length) ' '
  .ofList (trimRight (usage ++ fill ++ ' ' :: s.description.toList))

/-- Lists the commands, or shows the usage of one. -/
def help : Handler σ
  | [] => .look fun v =>
    .edits (v.commands.values.filterMap fun s =>
      if s.listed then some (.output (helpLine s)) else none) .silent
  | name :: _ => .look fun v =>
    .converted name.datum.toText fun shown =>
      match v.commands.get? (upper shown) with
      | none => .failWith (.noSuchCommand shown)
      | some s =>
        .andThen (.output s.usage)
          (if s.description = "" then .silent
          else .andThen (.output ("  " ++ s.description)) .silent)

/-- Ends the batch, perhaps with a code. -/
def exit : Handler σ := fun args => .look fun v =>
  .andThen (.jump (.whole v.batchLength)) <|
    match args with
    | [] => .done (.whole 0)
    | code :: _ => .orRaise (fun i => .done (.whole i)) (wholeOf "EXIT" code)

/-- Fails where a value is false or zero. -/
def assert : Handler σ
  | [value] =>
    .converted value.datum.truth fun holds =>
      if holds then .silent
      else .converted value.toShown fun shown => .failWith (.assertion shown)
  | _ => .silent

/-- Fails with a message. -/
def throw : Handler σ
  | [] => .failWith (.thrown "" ErrorCode.thrownError.toInt none)
  | message :: _ =>
    .converted message.datum.toText fun text =>
      .failWith (.thrown text ErrorCode.thrownError.toInt none)

/-- The standard commands, in the order in which they are listed. -/
def commands : List (Command (Handler σ)) :=
  [⟨{ name := "PRINT", params := List.replicate printLimit (optional TypeName.any),
      description := "Write the arguments to the output, separated by spaces." }, print⟩,
    ⟨{ name := "SET", params := [required [TypeName.reference], required [TypeName.any]],
       description := "Store a value in a variable." }, set⟩,
    ⟨{ name := "DEL", params := [required [TypeName.reference]],
       description := "Remove a variable." }, delete⟩,
    ⟨{ name := "GOTO", params := [required [TypeName.number]],
       description := "Continue the batch at a zero-based line index." }, goto⟩,
    ⟨{ name := "WAIT", params := [required [TypeName.number]],
       description := "Pause the batch for a number of seconds." }, wait⟩,
    ⟨{ name := "HELP", params := [optional TypeName.string],
       description := "List commands, or show one command's syntax." }, help⟩,
    ⟨{ name := "EXIT", params := [optional TypeName.number],
       description := "Stop the batch, optionally with an error code." }, exit⟩,
    ⟨{ name := "ASSERT", params := [required [TypeName.bool, TypeName.number]],
       description := "Fail the batch when the value is false or zero." }, assert⟩,
    ⟨{ name := "THROW", params := [optional TypeName.string],
       description := "Fail the batch with a thrown error.", listed := false }, throw⟩]

/-- The engine with the standard commands. -/
def install (e : Engine σ) : Engine σ :=
  let commands := commands.foldl (·.register ·) e.services.commands
  { e with services := { e.services with commands } }

end CommandBatch.Standard
