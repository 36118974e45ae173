import CommandBatch.Datum

/-!
# Tagged values

An argument of a command is a datum tagged with the name of its type, together with the text it was
read from. Types are named by plain texts, since hosts add types of their own.
-/

namespace CommandBatch

namespace TypeName

def number : String := "number"
def bool : String := "bool"
def symbol : String := "symbol"
def string : String := "string"
def reference : String := "variable"
def tensor : String := "tensor"

/-- In a declaration: every type. -/
def any : String := "any"

/-- The tag of a literal that its type refused. -/
def error : String := "error"

end TypeName

/-- A datum with the name of its type. -/
structure Value where
  type : String
  datum : Datum
  /-- The text the value was read from. -/
  literal : Option String := none

namespace Value

/-- The value is a refused literal. -/
def isError (v : Value) : Bool := v.type == TypeName.error

/-- The value that stands for a refused literal. -/
def refused (literal : String) : Value := ⟨TypeName.error, .nothing, some literal⟩

/-- The value is a reference to a variable. -/
def isReference (v : Value) : Bool := v.type == TypeName.reference

/-- The literal of a value, or the text of its datum where there is none. -/
def shown (v : Value) : String :=
  match v.literal with
  | some s => if s = "" then v.datum.plain else s
  | none => v.datum.plain

/-- What is shown of a value, as far as it can be written: the datum is left alone where there is a
literal. -/
def toShown (v : Value) : Except ConversionError String :=
  if v.literal.any (· ≠ "") || v.datum.isWritable then .ok v.shown else .error .unwritable

/-- The text of a value in output: truth values in lower case, all else as its datum. -/
def format (v : Value) : Except ConversionError String :=
  if v.type = TypeName.bool then
    v.datum.truth.map fun b => if b then "true" else "false"
  else v.datum.toText

/-- The type and the quoted datum of a value, however long its numbers are. -/
def summary (v : Value) : String := v.type ++ ":" ++ v.datum.quoted

end Value

end CommandBatch
