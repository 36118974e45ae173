import CommandBatch.Event
import CommandBatch.Failure
import CommandBatch.Files.Tree
import CommandBatch.Files.Utf8

/-!
# Faults

Everything that can break off an operation. A fault is the interpreter's own (the failure of a
line, a refused registration or extension, a run that is started while another is active) or comes
from outside (a conversion, a file, host code). A fault has the name of its kind and a
text, which failures quote.
-/

namespace CommandBatch

/-- Why a registration or an extension is refused. -/
inductive ExtensionError where
  /-- A type has no name. -/
  | typeUnnamed
  /-- A type has a negative priority. -/
  | negativePriority (name : String) (priority : Int)
  /-- A parameter declaration is malformed. -/
  | malformedParameter (text : String)
  /-- A required parameter follows an optional one. -/
  | requiredAfterOptional (source : String)
  /-- A command's name is not a word. It is not shown if it cannot be written. -/
  | notAWord (shown : Option String)
  /-- A command's handler cannot be called. -/
  | notCallable (shown : String)
  /-- No command has this name. -/
  | unknownCommand (name : String)
  /-- No event has this name. -/
  | unknownEvent (name : String)
  /-- A step rule would fire more often than once a step. -/
  | stepInterval
  /-- The engine has no separator. -/
  | noSeparator
  /-- A hook met an error that is not the interpreter's own. -/
  | hookFailed (event text : String)
  /-- A step rule met an error that is not the interpreter's own. -/
  | stepRuleFailed (text : String)
  /-- An extension file is not there. -/
  | missing (path : String)
  /-- An extension path leads to nothing that can be loaded. -/
  | notLoadable (path : String)
  /-- An extension was written for another version. -/
  | version (path shown : String)
  /-- An extension has nothing that registers it. -/
  | noEntry (path : String)
  /-- A pointer file is not there. -/
  | missingPointer (path : String)
  /-- An error that a host gives a text of its own. -/
  | custom (text : String)
  deriving DecidableEq, Repr

/-- The version of the extension interface. -/
def interfaceVersion : Int := 1

open Decimal Text in
/-- The wording of a refusal. -/
def ExtensionError.message : ExtensionError → String
  | typeUnnamed => "Type name must be a non-empty string"
  | negativePriority name priority =>
    s!"Type '{name}' has negative priority {wholeText priority}; use None for 'lowest'"
  | malformedParameter text => s!"Malformed parameter declaration {quoted text}"
  | requiredAfterOptional source => s!"Required parameter {quoted source} follows an optional one"
  | notAWord shown => "Command name must be a non-empty word, got " ++ shown.getD ""
  | notCallable shown => s!"Handler for {shown} is not callable"
  | unknownCommand name => s!"Unknown command '{name}'"
  | unknownEvent name =>
    let names := ", ".intercalate (Event.all.map Event.name)
    s!"Unknown hook event '{name}' (expected one of {names})"
  | stepInterval => "every_n_steps must be >= 1"
  | noSeparator => "At least one whitespace character is required"
  | hookFailed event text => s!"Extension hook '{event}' failed: {text}"
  | stepRuleFailed text => s!"Extension step rule failed: {text}"
  | missing path => s!"Extension not found: {path}"
  | notLoadable path => s!"Failed to load extension module: {path}"
  | version path shown =>
    s!"Extension {path} requires API {shown}, host supports {wholeText interfaceVersion}"
  | noEntry path => s!"Extension {path} must define callable commander_register(ext)"
  | missingPointer path => s!".cmdx file not found: {path}"
  | custom text => text

/-- The numbers in the wording of a refusal can be written. -/
def ExtensionError.isWritable : ExtensionError → Bool
  | negativePriority _ priority => Decimal.isWritable priority
  | notAWord shown => shown.isSome
  | _ => true

/-- An error from outside the interpreter. -/
inductive OutsideError where
  | conversion (e : ConversionError)
  | undecodable (e : Files.DecodeError)
  /-- A file cannot be read. -/
  | access (e : Files.AccessError)
  /-- There is no first separator. -/
  | noFirstSeparator
  /-- A host function that cannot wait was asked to. -/
  | cannotWait
  /-- An error of a host, with the name of its kind. -/
  | custom (kind text : String)
  deriving DecidableEq, Repr

namespace OutsideError

/-- The name of the kind of an error. -/
def kind : OutsideError → String
  | conversion e => e.kind
  | undecodable _ => "UnicodeDecodeError"
  | access e => e.kind
  | noFirstSeparator => "IndexError"
  | cannotWait => "RuntimeError"
  | custom kind _ => kind

/-- The text of an error. -/
def message : OutsideError → String
  | conversion e => e.message
  | undecodable e => e.message
  | access e => e.message
  | noFirstSeparator => "string index out of range"
  | cannotWait => "this function cannot wait"
  | custom _ text => text

end OutsideError

/-- What can break off an operation. -/
inductive Fault where
  /-- A line fails. -/
  | failure (f : Failure)
  /-- A registration or an extension is refused. -/
  | extension (e : ExtensionError)
  /-- A run is started while another is active. -/
  | busy (text : String)
  /-- The interpreter's own, without a closer kind. -/
  | interpreter (text : String)
  /-- An error from outside the interpreter. -/
  | outside (e : OutsideError)
  /-- A waiting run is called off. -/
  | cancelled
  deriving DecidableEq, Repr

namespace Fault

/-- The refusal to start a run while another is active. -/
def alreadyRunning : Fault := .busy "Unable to start a run: commands are still running"

/-- A failure for a reason, of no line as yet. -/
def ofReason (r : Reason) : Fault := .failure { reason := r }

/-- A conversion that did not succeed. -/
def ofConversion (e : ConversionError) : Fault := .outside (.conversion e)

/-- A refusal, or the error that is met while it is put into words. -/
def ofRefusal (e : ExtensionError) : Fault :=
  if e.isWritable then .extension e else ofConversion .unwritable

/-- The name of the kind of a fault. -/
def kind : Fault → String
  | failure _ => "CommandFailure"
  | extension _ => "ExtensionError"
  | busy _ => "EngineBusyError"
  | interpreter _ => "CommanderError"
  | outside e => e.kind
  | cancelled => "CancelledError"

/-- The text of a fault. -/
def message : Fault → String
  | failure f => f.message
  | extension e => e.message
  | busy text => text
  | interpreter text => text
  | outside e => e.message
  | cancelled => ""

/-- The fault is the interpreter's own. -/
def isOwn : Fault → Bool
  | failure _ | extension _ | busy _ | interpreter _ => true
  | outside _ | cancelled => false

/-- The fault as the origin of a failure. -/
def asOrigin (f : Fault) : Origin := ⟨f.kind, f.message⟩

end Fault

end CommandBatch
