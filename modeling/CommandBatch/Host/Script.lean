import CommandBatch.Command.Signature
import CommandBatch.Environment
import CommandBatch.Registry.Hooks

/-!
# What host functions do

Handlers of commands, hooks and step rules belong to the host. What one of them does in a call is a
script: a tree of requests to the engine, each with what follows for every reply. A script ends with
an answer or breaks off with a fault. A host may have a state of its own, of any type, which scripts
read and change; the engine never looks into it.
-/

namespace CommandBatch

/-- What the engine tells its hooks. -/
inductive Notice where
  /-- A batch starts, with these lines. -/
  | batchStart (lines : List String)
  /-- The line of an index is about to run. -/
  | beforeLine (index : Nat) (text : String)
  /-- The line of an index has ended with a code. -/
  | afterLine (index : Nat) (text : String) (code : Int)
  /-- A line has failed. -/
  | onError (code : Int) (failure : Option Failure)
  /-- The batch has ended with a code. -/
  | batchEnd (code : Int)
  deriving DecidableEq, Repr

/-- The event that a notice is about. -/
def Notice.event : Notice → Event
  | batchStart _ => .batchStart
  | beforeLine .. => .beforeLine
  | afterLine .. => .afterLine
  | onError .. => .onError
  | batchEnd _ => .batchEnd

/-- What a host function adds to the transcript of its own accord. -/
inductive Note where
  /-- A command was called, and how the engine stood then. -/
  | called (name : String) (args : List Value) (cursor : Int) (index : Option Nat) (busy : Bool)
  /-- A hook was told of an event. -/
  | notified (label : String) (notice : Notice)
  /-- A step rule fired. -/
  | stepped (label : String) (context : StepContext)
  /-- A line was interpreted, with this code. -/
  | interpreted (code : Int)
  /-- The interpreted line was executed, with this code. -/
  | executed (code : Int)

/-- What a host function sees of the engine. -/
structure View where
  cursor : Int
  /-- The index of the line that runs. -/
  index : Option Nat
  busy : Bool
  /-- The number of lines of the batch. -/
  batchLength : Nat
  env : Environment
  commands : OrderedMap Signature

/-- A change that a host function asks for. -/
inductive Edit where
  /-- Writes a text to the output. -/
  | output (text : String)
  /-- Adds to the transcript. -/
  | note (n : Note)
  /-- Sets a variable. -/
  | setVariable (name type : String) (datum : Datum)
  /-- Removes a variable, which has to be there. -/
  | deleteVariable (name : String)
  /-- Lets the batch go on at the line that a datum denotes. -/
  | jump (goal : Datum)
  /-- Lets the batch go on at a line. -/
  | moveCursor (goal : Int)
  /-- Adds a line to the end of the batch. -/
  | appendLine (text : String)
  /-- Empties the list of lines that the hooks for the start of the batch are shown. -/
  | clearShownLines
  /-- Registers a type of arguments. -/
  | registerType (name : Datum) (lexis : Lexis) (priority : Option Int)

/-- An operation of the engine that may take time. -/
inductive Task where
  /-- Executes the line that was interpreted last. -/
  | execute
  /-- Runs a line. -/
  | runLine (line : String)
  /-- Runs a batch. -/
  | runBatch (lines : List String)

/-- Why a run waits. -/
inductive Wait where
  /-- For some seconds to pass. -/
  | sleep (seconds : Float)
  /-- For a sign from outside. -/
  | block

/-- What a host function does. -/
inductive Script (σ : Type) where
  /-- Answers. -/
  | done (answer : Datum)
  /-- Breaks off. -/
  | raise (f : Fault)
  /-- Looks at the engine. -/
  | look (next : View → Script σ)
  /-- Reads the state of the host and changes it. -/
  | recall (change : σ → σ) (next : σ → Script σ)
  /-- Asks for a change. -/
  | edit (e : Edit) (next : Except Fault Unit → Script σ)
  /-- Registers a command. There is no handler where the host gave something that is none. -/
  | registerCommand (d : Declaration) (handler : Option (List Value → Script σ))
      (next : Except Fault Unit → Script σ)
  /-- Has a line interpreted. -/
  | interpret (line : String) (next : Except Fault Int → Script σ)
  /-- Waits for an operation that may take time. -/
  | await (t : Task) (next : Except Fault Int → Script σ)
  /-- Waits. -/
  | wait (w : Wait) (next : Script σ)

/-- What is called with the arguments of a command. -/
abbrev Handler (σ : Type) := List Value → Script σ

namespace Script

variable {σ : Type}

/-- Goes on with the reply, or breaks off with the fault. -/
def orRaise {α : Type} (next : α → Script σ) : Except Fault α → Script σ
  | .ok a => next a
  | .error f => .raise f

/-- Asks for a change and goes on if it was made. -/
def andThen (e : Edit) (next : Script σ) : Script σ :=
  .edit e (orRaise fun _ => next)

/-- Asks for changes one after the other. -/
def edits : List Edit → Script σ → Script σ
  | [], next => next
  | e :: es, next => andThen e (edits es next)

/-- Answers with nothing. -/
def silent : Script σ := .done .nothing

/-- Breaks off with a failure for a reason. -/
def failWith (r : Reason) : Script σ := .raise (.ofReason r)

/-- Goes on with the number or truth value that a datum was taken for. -/
def converted {α : Type} (e : Except ConversionError α) (next : α → Script σ) : Script σ :=
  orRaise next (e.mapError .ofConversion)

end Script

end CommandBatch
