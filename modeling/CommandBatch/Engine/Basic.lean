import CommandBatch.Host.Services
import CommandBatch.Line.Basic
import CommandBatch.Trace.Basic

/-!
# The engine

An engine has services, variables and the state of its current or last run. What it does that can
be seen from outside (output, calls of hooks and step rules, the end of runs) is written to a
transcript in order; a statement about what a run does is a statement about the part of the
transcript that it adds.

The operations of this module are those that never wait. They belong to one monad, in which a fault
keeps the changes that were made before it.
-/

namespace CommandBatch

/-- An entry of the transcript of an engine. -/
inductive Record where
  /-- A text was written to the output. -/
  | output (text : String)
  /-- A host function added a note. -/
  | noted (n : Note)
  /-- An event was announced to its hooks. -/
  | announced (n : Notice)
  /-- A hook, by its number, was called with a notice. -/
  | hookCalled (number : Nat) (n : Notice)
  /-- A step rule, by its number, fired. -/
  | ruleFired (number : Nat) (context : StepContext)
  /-- A run was completed with a code. -/
  | completed (code : Int)

/-- What is settled when an engine is made. -/
structure Setup (σ : Type) where
  /-- Entries of the trace have summaries of the variables. -/
  verbose : Bool := false
  marks : Marks := {}
  /-- What is called with the code when a run is complete. -/
  onCompletion : Option (Int → Script σ) := none

/-- The state of a run. It stays as it is when the run ends, until the next run. -/
structure Progress where
  /-- The lines of the batch. -/
  batch : List String := []
  /-- The index of the line to run next. -/
  cursor : Int := 0
  trace : Trace := {}
  /-- The index of the line that runs. -/
  index : Option Nat := none
  /-- The text that was interpreted last. -/
  text : String := ""
  /-- The command of that text. -/
  command : String := ""
  /-- The arguments of that text. -/
  args : List Value := []
  /-- The code that the last run ended with. -/
  code : Int := 0
  /-- The last failure. -/
  failure : Option Failure := none
  /-- The lines that hooks for the start of the batch are shown. -/
  shownLines : List String := []

/-- An engine, with the state of its host. -/
structure Engine (σ : Type) where
  setup : Setup σ := {}
  services : Services σ := {}
  env : Environment := {}
  /-- A run is active. -/
  busy : Bool := false
  progress : Progress := {}
  transcript : Array Record := #[]
  host : σ

/-- An operation that does not wait. -/
abbrev Act (σ : Type) := EStateM Fault (Engine σ)

namespace Engine

variable {σ : Type}

/-- What host functions see. -/
def view (e : Engine σ) : View where
  cursor := e.progress.cursor
  index := e.progress.index
  busy := e.busy
  batchLength := e.progress.batch.length
  env := e.env
  commands := e.services.commands.signatures

/-- The line that the cursor points at, with its index. -/
def nextLine? (p : Progress) : Option (Nat × String) :=
  if p.cursor < 0 then none
  else p.batch[p.cursor.toNat]?.map fun text => (p.cursor.toNat, text)

/-- Writes to the transcript. -/
def record (r : Record) : Act σ Unit :=
  modify fun e => { e with transcript := e.transcript.push r }

/-- Changes the state of the run. -/
def progressBy (f : Progress → Progress) : Act σ Unit :=
  modify fun e => { e with progress := f e.progress }

/-- An operation that is refused or gives a result. -/
def orThrow {ε α : Type} (f : ε → Fault) : Except ε α → Act σ α
  | .ok a => pure a
  | .error e => throw (f e)

/-- The outcome of an operation, fault or not. -/
def attempt {α : Type} (act : Act σ α) : Act σ (Except Fault α) := fun e =>
  match act e with
  | .ok a e => .ok (.ok a) e
  | .error f e => .ok (.error f) e

/-- Carries out a registration. -/
def register (owner : String) (r : Registration σ) : Act σ Unit := do
  let services ← orThrow .ofRefusal ((← get).services.register owner r)
  modify fun e => { e with services }

/-- Registers a command. -/
def registerCommand (d : Declaration) (handler : Option (Handler σ)) : Act σ Unit :=
  register "" (.command d handler)

/-- Sets a variable. -/
def setVariable (name : String) (value : Value) : Act σ Unit :=
  modify fun e => { e with env := e.env.set name value }

/-- Removes a variable, which has to be there. -/
def deleteVariable (name : String) : Act σ Unit := do
  let env ← orThrow .ofReason ((← get).env.delete name)
  modify fun e => { e with env }

/-- Lets the batch go on at the line that a datum denotes. -/
def jump (goal : Datum) : Act σ Unit := do
  let cursor ← orThrow .ofConversion goal.toWhole
  progressBy fun p => { p with cursor }

/-- Makes a change that a host function asks for. -/
def edit : Edit → Act σ Unit
  | .output text => record (.output text)
  | .note n => record (.noted n)
  | .setVariable name type datum => setVariable name ⟨type, datum, none⟩
  | .deleteVariable name => deleteVariable name
  | .jump goal => jump goal
  | .moveCursor cursor => progressBy fun p => { p with cursor }
  | .appendLine text => progressBy fun p => { p with batch := p.batch ++ [text] }
  | .clearShownLines => progressBy fun p => { p with shownLines := [] }
  | .registerType name lexis priority => register "" (.type name lexis priority)

/-- Notes the failure of a text and gives its code. -/
def fail (r : Reason) (text : String) : Act σ Int := do
  progressBy fun p => { p with failure := some ⟨r, p.index, some text⟩ }
  return r.code

/-- The state in which a text is about to be interpreted. Outside a run it belongs to no line. -/
def facing (text : String) (busy : Bool) (p : Progress) : Progress :=
  { p with index := if busy then p.index else none, text, command := "", args := [] }

/-- Interprets a text: reads its command and arguments, which are executed later. A text that cannot
be read fails; a fault of a type's own comes through. -/
def interpret (text : String) : Act σ Int := do
  modify fun e => { e with progress := facing text e.busy e.progress }
  let e ← get
  match Line.read e.services.types.types e.setup.marks text with
  | .ok line =>
    progressBy fun p => { p with command := line.command, args := line.args }
    return 0
  | .error (.failure f) => fail f.reason text
  | .error f => throw f

/-- Plays a script that must not wait. -/
def play : Script σ → Act σ Datum
  | .done answer => pure answer
  | .raise f => throw f
  | .look next => fun e => play (next e.view) e
  | .recall change next => fun e => play (next e.host) { e with host := change e.host }
  | .edit ed next => do play (next (← attempt (edit ed)))
  | .registerCommand d handler next => do play (next (← attempt (registerCommand d handler)))
  | .interpret line next => do play (next (← attempt (interpret line)))
  | .await .. | .wait .. => throw (.outside .cannotWait)

/-- The fault that a fault of a hook or a step rule comes through as: the interpreter's own stay as
they are. -/
def hookFault (wrap : String → ExtensionError) (f : Fault) : Fault :=
  if f.isOwn then f else .extension (wrap f.message)

/-- Carries out an operation of hooks or step rules. -/
def guarded (wrap : String → ExtensionError) (act : Act σ Unit) : Act σ Unit := fun e =>
  match act e with
  | .ok a e => .ok a e
  | .error f e => .error (hookFault wrap f) e

/-- The notice as the next hook is shown it. -/
def asShown (n : Notice) (p : Progress) : Notice :=
  match n with
  | .batchStart _ => .batchStart p.shownLines
  | n => n

/-- Calls hooks with a notice, up to the first that breaks off. -/
def callHooks (n : Notice) : List (Hook (Notice → Script σ)) → Act σ Unit
  | [] => pure ()
  | hook :: hooks => do
    let shown := asShown n (← get).progress
    record (.hookCalled hook.number shown)
    discard (play (hook.handler shown))
    callHooks n hooks

/-- Announces an event to its hooks. -/
def announce (n : Notice) : Act σ Unit := do
  record (.announced n)
  if let .batchStart lines := n then progressBy fun p => { p with shownLines := lines }
  guarded (.hookFailed n.event.name) do callHooks n ((← get).services.hooks.hooksFor n.event)

/-- Fires step rules, up to the first that breaks off. -/
def fireRules (context : StepContext) : List (StepRule (StepContext → Script σ)) → Act σ Unit
  | [] => pure ()
  | rule :: rules => do
    record (.ruleFired rule.number context)
    discard (play (rule.handler context))
    fireRules context rules

/-- What an entry of the trace says about the variables. -/
def noted (e : Engine σ) : Except ConversionError (Option (List (String × String))) :=
  if e.setup.verbose then e.env.toSnapshot.map some else .ok none

/-- Takes up a step in the trace and fires the step rules. Variables that cannot be written come in
the way of that. -/
def logStep (index : Nat) (text : String) (code : Int) : Act σ Unit := do
  let e ← get
  let snapshot ← orThrow .ofConversion (noted e)
  let entry := e.progress.trace.nextEntry (some index) text e.progress.command code snapshot
  progressBy fun p => { p with trace := p.trace.push entry }
  let context : StepContext := ⟨entry.step, index, e.progress.command, code⟩
  guarded .stepRuleFailed do fireRules context ((← get).services.hooks.rulesAt context.step)

/-- Begins the line of an index: interprets it, after the hooks have been told. -/
def openLine (index : Nat) (text : String) : Act σ Int := do
  progressBy fun p => { p with index := some index }
  announce (.beforeLine index text)
  interpret text

/-- Ends the line of an index: takes it up in the trace and tells the hooks. -/
def closeLine (index : Nat) (text : String) (code : Int) : Act σ Int := do
  logStep index text code
  announce (.afterLine index text code)
  if code ≠ 0 then announce (.onError code (← get).progress.failure)
  return code

/-- Begins a run, unless one is active. -/
def enter : Act σ Unit := do
  if (← get).busy then throw .alreadyRunning
  modify fun e => { e with busy := true }
  progressBy fun p =>
    { p with trace := p.trace.clear, index := none, command := "", args := [], failure := none,
             code := 0 }

/-- Begins a batch of these lines with the cursor at one of them. -/
def openBatch (lines : List String) (cursor : Int) : Act σ Unit := do
  progressBy fun p => { p with batch := lines, cursor }
  announce (.batchStart lines)

/-- Tells the host the code of a run that is complete. -/
def callBack (code : Int) : Act σ Int := do
  if let some script := (← get).setup.onCompletion then discard (play (script code))
  return code

/-- Ends a run that was not broken off. -/
def complete (code : Int) : Act σ Int := do
  progressBy fun p => { p with code }
  announce (.batchEnd code)
  record (.completed code)
  callBack code

/-- The code of a command whose arguments cannot be bound. A reference without a name is no failure,
but an error that comes through. -/
def refuse (r : Reason) (text : String) : Act σ Int :=
  match r with
  | .nameless => throw (.ofConversion .unwritable)
  | r => fail r text

/-- The code of a command's answer: nothing is success, and a whole number is a code. Other data are
quoted in the failure, and the error comes through where they cannot be written. -/
def answerCode (command text : String) : Datum → Act σ Int
  | .nothing => return 0
  | .whole code => if code = 0 then return 0 else fail (.answeredCode command code) text
  | answer => do
    let shown ← orThrow .ofConversion answer.toQuoted
    fail (.answeredData command shown) text

/-- The code of a command's outcome. Every fault is the failure of the line, unless the run is
called off. -/
def outcomeCode (command text : String) : Except Fault Datum → Act σ Int
  | .ok answer => answerCode command text answer
  | .error (.failure f) => fail f.reason text
  | .error .cancelled => throw .cancelled
  | .error f => fail (.commandFailed command f.asOrigin) text

end Engine

/-- A new engine on the given services. The types that every engine has are added where they are
missing. -/
def Engine.new {σ : Type} (setup : Setup σ) (services : Services σ) (host : σ) :
    Except ExtensionError (Engine σ) :=
  if setup.marks.separators.isEmpty then .error .noSeparator
  else
    let services := { services with types := services.types.complete Token.defaults }
    .ok { setup, services, host }

end CommandBatch
