import CommandBatch.Decimal.Integer

/-!
# Error codes

A run ends with a whole number, zero if no line failed. The codes that the interpreter itself gives
have names and descriptions; hosts may give others, which are shown by their hexadecimal text.
-/

namespace CommandBatch

/-- The codes that the interpreter gives. -/
inductive ErrorCode where
  | success
  | thrownError
  | typeMismatch
  | tooManyArguments
  | tooFewArguments
  | unknownType
  | unclosedArgument
  | syntaxError
  | unknownCommand
  | unknownVariable
  | parseFailure
  deriving DecidableEq, Repr

namespace ErrorCode

/-- All codes, in ascending order. -/
def all : List ErrorCode :=
  [success, thrownError, typeMismatch, tooManyArguments, tooFewArguments, unknownType,
    unclosedArgument, syntaxError, unknownCommand, unknownVariable, parseFailure]

/-- The number of a code. The number eight is not given. -/
def toInt : ErrorCode → Int
  | success => 0
  | thrownError => 1
  | typeMismatch => 2
  | tooManyArguments => 3
  | tooFewArguments => 4
  | unknownType => 5
  | unclosedArgument => 6
  | syntaxError => 7
  | unknownCommand => 9
  | unknownVariable => 10
  | parseFailure => 11

/-- The code with the given number. -/
def ofInt? (code : Int) : Option ErrorCode :=
  all.find? fun c => c.toInt == code

/-- The name of a code. -/
def name : ErrorCode → String
  | success => "Success"
  | thrownError => "ThrownError"
  | typeMismatch => "TypeMismatch"
  | tooManyArguments => "TooManyArguments"
  | tooFewArguments => "TooFewArguments"
  | unknownType => "UnknownType"
  | unclosedArgument => "UnclosedArgument"
  | syntaxError => "SyntaxError"
  | unknownCommand => "UnknownCommand"
  | unknownVariable => "UnknownVariable"
  | parseFailure => "ParseFailure"

/-- What a code means. -/
def description : ErrorCode → String
  | success => "No errors were found."
  | thrownError => "Thrown error."
  | typeMismatch => "Unexpected argument type."
  | tooManyArguments => "Too many arguments provided."
  | tooFewArguments => "Too few arguments provided."
  | unknownType => "Unknown type; perhaps you forgot a space?"
  | unclosedArgument =>
    "Unclosed argument; make sure strings, arrays, etc. have a closing mark."
  | syntaxError => "Syntax Error."
  | unknownCommand => "Unknown command; make sure you spelled it correctly."
  | unknownVariable =>
    "Unknown variable; make sure you spelled it correctly and the variable is defined."
  | parseFailure => "Unknown type; value could not be parsed."

@[simp] theorem ofInt?_toInt (c : ErrorCode) : ofInt? c.toInt = some c := by
  cases c <;> rfl

end ErrorCode

/-- The hexadecimal text of a code. -/
def codeHex (code : Int) : String := "0x" ++ Decimal.hexText code

/-- The name of a code, or its hexadecimal text. -/
def codeName (code : Int) : String :=
  match ErrorCode.ofInt? code with
  | some c => c.name
  | none => codeHex code

/-- What a code means, as far as that is known. -/
def codeDescription (code : Int) : String :=
  match ErrorCode.ofInt? code with
  | some c => c.description
  | none => "Unrecognized error code " ++ codeHex code ++ "."

end CommandBatch
