import CommandBatch.ErrorCode
import CommandBatch.Value

/-!
# Failures of lines

A line that cannot be read, bound or executed fails for a reason. The reason settles the error
code, the message and, where a character of the line is at fault, its column. A failure is a reason
with the place where it arose.
-/

namespace CommandBatch

/-- Another error that a failure stems from: the name of its kind and its text. -/
structure Origin where
  kind : String
  text : String
  deriving DecidableEq, Repr

/-- Why a line fails. -/
inductive Reason where
  /-- No type claims the character that begins an argument. -/
  | unclaimed (c : Char) (column : Nat)
  /-- A character follows an argument that has already been closed. -/
  | glued (c : Char) (type : String) (column : Nat)
  /-- The argument that begins in a column has no end. -/
  | unclosed (type : String) (column : Nat)
  /-- A type's parser met an error. -/
  | parserFailed (type literal : String) (origin : Origin) (column : Nat)
  /-- A type's parser answered with data instead of a value. -/
  | parserAnswered (type kind : String) (column : Nat)
  /-- A type's parser refused the literal. -/
  | invalidLiteral (type literal : String) (column : Nat)
  /-- A variable that is asked for has no value. -/
  | undefined (name : String)
  /-- A variable that is to be removed has no value. -/
  | cannotDelete (name : String)
  /-- A reference in an argument leads to no value. -/
  | unresolved (reference : String)
  /-- A reference in an argument has no name, since its datum cannot be written. This is met as an
  error from outside, so no failure is ever noted with it. -/
  | nameless
  /-- No command has this name. -/
  | unknownCommand (name : String)
  /-- More arguments than parameters. -/
  | tooMany (command : String) (most given : Nat)
  /-- Fewer arguments than required parameters. -/
  | tooFew (command : String) (least given : Nat)
  /-- The argument at a position, counted from one, has a type that its parameter does not
  accept. -/
  | mismatch (command : String) (position : Nat) (expected found : String)
  /-- A command met an error. -/
  | commandFailed (command : String) (origin : Origin)
  /-- A command answered with something that is no error code. -/
  | answeredData (command shown : String)
  /-- A command answered with a code other than zero. -/
  | answeredCode (command : String) (code : Int)
  /-- A command expects a whole number. -/
  | notWhole (command shown : String)
  /-- A pause cannot be negative. -/
  | negativeDelay (command shown : String)
  /-- Help was asked for a command that is not there. -/
  | noSuchCommand (shown : String)
  /-- An assertion did not hold. -/
  | assertion (shown : String)
  /-- Two arrays have no product. -/
  | misaligned (command : String) (misfit : Tensor.Misfit)
  /-- A host or a command gave up with a message of its own. An empty message stands for the
  description of the code. -/
  | thrown (message : String) (code : Int) (column : Option Int)
  deriving DecidableEq, Repr

namespace Reason

/-- The error code of a failure for this reason. -/
def code : Reason → Int
  | unclaimed .. | glued .. => ErrorCode.unknownType.toInt
  | unclosed .. => ErrorCode.unclosedArgument.toInt
  | parserFailed .. | parserAnswered .. => ErrorCode.parseFailure.toInt
  | invalidLiteral .. => ErrorCode.syntaxError.toInt
  | undefined _ | cannotDelete _ | unresolved _ | nameless => ErrorCode.unknownVariable.toInt
  | unknownCommand _ | noSuchCommand _ => ErrorCode.unknownCommand.toInt
  | tooMany .. => ErrorCode.tooManyArguments.toInt
  | tooFew .. => ErrorCode.tooFewArguments.toInt
  | mismatch .. | notWhole .. | negativeDelay .. | misaligned .. => ErrorCode.typeMismatch.toInt
  | commandFailed .. | answeredData .. | assertion _ => ErrorCode.thrownError.toInt
  | answeredCode _ code => code
  | thrown _ code _ => code

/-- Only codes that a command or a host chose can be zero. -/
theorem code_ne_zero {r : Reason} (hanswered : ∀ command, r ≠ answeredCode command 0)
    (hthrown : ∀ message column, r ≠ thrown message 0 column) : r.code ≠ 0 := by
  cases r with
  | answeredCode command code =>
    rintro rfl
    exact hanswered command rfl
  | thrown message code column =>
    rintro rfl
    exact hthrown message column rfl
  | _ => simp [code, ErrorCode.toInt]

/-- The column of the character at fault. -/
def column : Reason → Option Int
  | unclaimed _ column | glued _ _ column | unclosed _ column | parserFailed _ _ _ column
  | parserAnswered _ _ column | invalidLiteral _ _ column => some column
  | thrown _ _ column => column
  | _ => none

/-- The kind of the error that the failure stems from. -/
def origin : Reason → Option String
  | parserFailed _ _ origin _ => some origin.kind
  | commandFailed _ origin => some origin.kind
  | misaligned .. => some "ValueError"
  | _ => none

open Decimal Text in
/-- The message of a failure for this reason. -/
def message : Reason → String
  | unclaimed c _ => s!"No type begins with '{String.singleton c}'"
  | glued c type _ =>
    s!"'{String.singleton c}' follows a completed {type} argument without a separator"
  | unclosed type column =>
    s!"{type} argument starting at column {wholeText column} is never closed"
  | parserFailed type literal origin _ =>
    s!"{type} parser failed on {quoted literal}: {origin.text}"
  | parserAnswered type kind _ => s!"{type} parser returned {kind}, not Value"
  | invalidLiteral type literal _ => s!"Invalid {type} literal {quoted literal}"
  | undefined name => s!"Undefined variable '{name}'"
  | cannotDelete name => s!"Cannot delete undefined variable '{name}'"
  | unresolved reference => s!"Variable '{reference}' is not defined"
  | nameless => ConversionError.unwritable.message
  | unknownCommand name => s!"Unknown command '{name}'"
  | tooMany command most given =>
    s!"{command} takes at most {wholeText most} argument(s), got {wholeText given}"
  | tooFew command least given =>
    s!"{command} needs at least {wholeText least} argument(s), got {wholeText given}"
  | mismatch command position expected found =>
    s!"{command} argument {wholeText position} expects {expected}, got {found}"
  | commandFailed command origin => s!"{command} raised {origin.kind}: {origin.text}"
  | answeredData command shown => s!"{command} returned {shown}, expected an error code"
  | answeredCode command code => s!"{command} returned {codeName code}"
  | notWhole command shown => s!"{command} expects a whole number, got {shown}"
  | negativeDelay command shown => s!"{command} expects a non-negative delay, got {shown}"
  | noSuchCommand shown => s!"No command named '{shown}'"
  | assertion shown => s!"Assertion failed: {shown}"
  | misaligned command misfit => s!"{command} shapes do not align: {misfit.message}"
  | thrown message code _ => if message = "" then codeDescription code else message

end Reason

/-- A failure: its reason, and the line it belongs to once that is known. -/
structure Failure where
  reason : Reason
  /-- The index of the line in its batch. -/
  line : Option Nat := none
  /-- The text of the line. -/
  text : Option String := none
  deriving DecidableEq, Repr

namespace Failure

/-- The error code. -/
def code (f : Failure) : Int := f.reason.code

/-- The column of the character at fault. -/
def column (f : Failure) : Option Int := f.reason.column

/-- The message. -/
def message (f : Failure) : String := f.reason.message

/-- The kind of the error that the failure stems from. -/
def origin (f : Failure) : Option String := f.reason.origin

end Failure

end CommandBatch
