import CommandBatch.Fault
import CommandBatch.Text.Case
import CommandBatch.Text.Pieces

/-!
# Parameters

A command declares each parameter by a text: the names of the types it accepts with bars between
them, in any case, and a question mark in front where the argument may be left out. Optional
parameters stand behind the required ones.
-/

namespace CommandBatch

open Text

/-- A parameter of a command. -/
structure Parameter where
  /-- The names of the accepted types, ascending and without repetition. -/
  types : List String
  /-- The argument may be left out. -/
  optional : Bool
  /-- The declaration, in lower case and without blank margins. -/
  source : String
  deriving DecidableEq, Repr

namespace Parameter

/-- A question mark in front of a text, and what follows it. -/
def splitOptional : List Char → Bool × List Char
  | '?' :: cs => (true, cs)
  | cs => (false, cs)

/-- The texts in ascending order, each once. -/
def ascending (names : List String) : List String :=
  names.eraseDups.mergeSort fun a b => decide (a ≤ b)

/-- The parameter that a text declares. -/
def parse (text : String) : Except ExtensionError Parameter :=
  let source := lowerList (trim text.toList)
  let (optional, body) := splitOptional source
  let names := (piecesAt '|' body).map trim
  if names.any List.isEmpty then .error (.malformedParameter text)
  else .ok ⟨ascending (names.map .ofList), optional, .ofList source⟩

/-- Every type is accepted. -/
def acceptsAny (p : Parameter) : Bool := p.types.contains TypeName.any

/-- References to variables are accepted as such. A parameter of any type does not count: it takes
the value of the variable. -/
def acceptsReference (p : Parameter) : Bool := p.types.contains TypeName.reference

/-- Values of this type are accepted. -/
def accepts (p : Parameter) (type : String) : Bool := p.acceptsAny || p.types.contains type

/-- The accepted types, between square brackets where the argument may be left out. -/
def describe (p : Parameter) : String :=
  let names := "|".intercalate p.types
  if p.optional then "[" ++ names ++ "]" else "<" ++ names ++ ">"

/-- Refuses a required parameter behind an optional one. -/
def checkOrder (seenOptional : Bool) : List Parameter → Except ExtensionError Unit
  | [] => .ok ()
  | p :: ps =>
    if p.optional then checkOrder true ps
    else if seenOptional then .error (.requiredAfterOptional p.source)
    else checkOrder false ps

/-- The parameters that a list of texts declares. -/
def parseAll (texts : List String) : Except ExtensionError (List Parameter) := do
  let ps ← texts.mapM parse
  checkOrder false ps
  return ps

end Parameter

end CommandBatch
