import CommandBatch.CommandLine.Usage
import CommandBatch.Engine.Run
import CommandBatch.Extension.Load
import CommandBatch.Report.Traceback
import CommandBatch.Standard.Commands

/-!
# Sessions

What the program does from its command line to its end: it loads the extensions, and then runs a
program or answers lines at a prompt. A session has an ending, what it has written to either stream,
and the transcript of its engine.

A run is carried out elsewhere, since it may wait; a session is told its result. `run` carries it
out with nothing happening in the waits.
-/

namespace CommandBatch.CommandLine

open Extension

variable {σ : Type}

/-- How a session ends. -/
inductive Ending where
  /-- With a status. -/
  | status (code : Int)
  /-- Before it begins, with a status, because of its command line. -/
  | dismissed (code : Int)
  /-- By a fault that it does not report. -/
  | broken (f : Fault)
  /-- Not within what its runs were given. -/
  | exhausted
  deriving DecidableEq, Repr

/-- What has been written to the streams. -/
structure Console where
  out : String := ""
  err : String := ""
  deriving DecidableEq, Repr

namespace Console

/-- Writes to the output. -/
def print (c : Console) (text : String) : Console := { c with out := c.out ++ text }

/-- Writes to the stream for complaints. -/
def complain (c : Console) (text : String) : Console := { c with err := c.err ++ text }

end Console

/-- A session that has ended. -/
structure Session where
  ending : Ending
  console : Console := {}
  transcript : Array Record := #[]

/-- The result of a run, or nothing if it was not given enough. -/
abbrev RunResult (σ : Type) := Option (EStateM.Result Fault (Engine σ) Int)

/-- What was written to the output since the transcript had a length: a line for each text. -/
def printedSince (length : Nat) (transcript : Array Record) : String :=
  String.join <| (transcript.toList.drop length).filterMap fun
    | .output text => some (text ++ "\n")
    | _ => none

/-- What is written to report a run that ended with a code that is not success, and the error that
the report is cut short by. -/
def report (e : Engine σ) (code : Int) (verbose structured : Bool) :
    String × Option ConversionError :=
  match e.progress.failure with
  | none => (s!"{codeName code} ({codeHex code}): {codeDescription code}\n", none)
  | some f =>
    let steps := e.progress.trace.recent Report.usualContext
    match Report.toText steps f verbose with
    | .error error => ("", some error)
    | .ok text =>
      if !structured then (text ++ "\n", none)
      else
        match Report.toJson steps f with
        | .error error => (text ++ "\n", some error)
        | .ok json => (text ++ "\n" ++ json ++ "\n", none)

/-- The complaint about an extension. -/
def complaint (e : ExtensionError) : String := "ExtensionError: " ++ e.message ++ "\n"

/-- A session that ends with a complaint. -/
def refused (text : String) : Session := { ending := .status 1, console := { err := text } }

/-- The engine of a session: its extensions, then the standard commands. -/
def makeEngine (w : Installation σ) (host : σ) (o : Options) : Except Fault (Engine σ) := do
  let (services, host) ← w.load o.extensions host
  let e ← (Engine.new { verbose := o.verbose } services host).mapError .extension
  return Standard.install e

/-- The text of the program at a path, or the session that ends because there is none. -/
def readProgram (w : Installation σ) (path : String) : Except Session String :=
  match w.readText path with
  | .ok text => .ok text
  | .error (.outside (.access (.blocked o place))) =>
    .error (refused s!"Failed to read {path}: {(Files.AccessError.blocked o place).message}\n")
  | .error f => .error { ending := .broken f }

/-- The session of a program whose run has ended. Its output has been written already up to a length
of the transcript. -/
def concludeProgram (o : Options) (length : Nat) : RunResult σ → Session
  | none => { ending := .exhausted }
  | some (.ok code e) =>
    let (err, error) := if code = 0 then ("", none) else report e code o.verbose o.structured
    { ending := error.elim (.status code) fun error => .broken (.ofConversion error),
      console := ⟨printedSince length e.transcript, err⟩, transcript := e.transcript }
  | some (.error f e) =>
    let console : Console := { out := printedSince length e.transcript }
    match f with
    | .extension x =>
      { ending := .status 1, console := console.complain (complaint x),
        transcript := e.transcript }
    | f => { ending := .broken f, console, transcript := e.transcript }

/-- What stands in front of a line at the prompt. -/
def prompt : String := "\x1b[38;2;153;221;255m>>>\x1b[0m "

/-- What greets the user of the prompt. -/
def greeting : String :=
  "\x1b[38;2;153;221;255mCommander\x1b[0m REPL. One command per line, Ctrl-D to quit.\n"

/-- What a line at the prompt has led to. -/
inductive Turn (σ : Type) where
  /-- The session goes on. -/
  | next (e : Engine σ) (c : Console)
  /-- The session has ended. -/
  | over (s : Session)

/-- What a line has led to when its run has ended. Its output has been written already up to a
length of the transcript. -/
def concludeLine (length : Nat) (c : Console) : RunResult σ → Turn σ
  | none => .over { ending := .exhausted, console := c }
  | some (.ok code e) =>
    let c := c.print (printedSince length e.transcript)
    let (err, error) := if code = 0 then ("", none) else report e code e.setup.verbose false
    let c := c.complain err
    error.elim (.next e c) fun error =>
      .over { ending := .broken (.ofConversion error), console := c, transcript := e.transcript }
  | some (.error f e) =>
    .over { ending := .broken f, console := c.print (printedSince length e.transcript),
            transcript := e.transcript }

/-- Ends a session at the prompt. -/
def farewell (e : Engine σ) (c : Console) : Session :=
  { ending := .status 0, console := c.print "\n", transcript := e.transcript }

/-- Answers lines at the prompt. -/
def converse (fuel : Nat) (e : Engine σ) (c : Console) : List String → Session
  | [] => farewell e (c.print prompt)
  | line :: lines =>
    let result := (Engine.carryOut fuel (.runLine line) e).result?
    match concludeLine e.transcript.size (c.print prompt) result with
    | .next e c => converse fuel e c lines
    | .over s => s

/-- What a session begins with, once its command line is understood. -/
inductive Start (σ : Type) where
  /-- Nothing more: it is over. -/
  | over (s : Session)
  /-- The run of a program. -/
  | program (o : Options) (e : Engine σ) (lines : List String)
  /-- The prompt. -/
  | prompt (e : Engine σ)

/-- Begins a session. -/
def start (w : Installation σ) (host : σ) (words : List String) : Start σ :=
  match parse words with
  | .error e => .over { ending := .dismissed 2, console := { err := refusal e } }
  | .ok .help => .over { ending := .dismissed 0, console := { out := help } }
  | .ok (.run o) =>
    match makeEngine w host o with
    | .error (.extension x) => .over (refused (complaint x))
    | .error f => .over { ending := .broken f }
    | .ok e =>
      match o.program with
      | none =>
        if o.source then .over (refused "-source requires a program string\n") else .prompt e
      | some program =>
        if o.source then .program o e (Text.lines program)
        else
          match readProgram w program with
          | .error s => .over s
          | .ok text => .program o e (Text.lines text)

/-- A whole session. Every run in it is given `fuel`. -/
def run (fuel : Nat) (w : Installation σ) (host : σ) (words : List String) (input : String) :
    Session :=
  match start w host words with
  | .over s => s
  | .program o e lines => concludeProgram o 0 (Engine.carryOut fuel (.runBatch lines) e).result?
  | .prompt e => converse fuel e { out := greeting } (Text.inputLines input)

end CommandBatch.CommandLine
