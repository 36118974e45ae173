import CommandBatch.Token.Basic

/-!
# The registry of types

The types of arguments in the order in which a reader tries them: ascending priority, types without
one last, and equals in the order of their registration.
-/

namespace CommandBatch

/-- The types of arguments, in the order in which they are tried. -/
structure TypeRegistry where
  types : List TokenType := []

namespace TypeRegistry

/-- A type of the first priority is tried after one of the second. A missing priority is behind
every other. -/
def behind (existing : Option Int) (priority : Int) : Bool :=
  match existing with
  | none => true
  | some p => p > priority

/-- The list with a type in front of the first that is behind it. -/
def insertBy (type : TokenType) (priority : Int) : List TokenType → List TokenType
  | [] => [type]
  | existing :: types =>
    if behind existing.priority priority then type :: existing :: types
    else existing :: insertBy type priority types

/-- The list with a type in its place. -/
def insert (type : TokenType) (types : List TokenType) : List TokenType :=
  match type.priority with
  | none => types ++ [type]
  | some priority => insertBy type priority types

/-- The type that a registration asks for, if it has a name and no negative priority. -/
def accept (name : Datum) (lexis : Lexis) (priority : Option Int) :
    Except ExtensionError TokenType :=
  match name with
  | .text name =>
    if name = "" then .error .typeUnnamed
    else
      match priority with
      | none => .ok ⟨name, lexis, none⟩
      | some p => if p < 0 then .error (.negativePriority name p) else .ok ⟨name, lexis, some p⟩
  | _ => .error .typeUnnamed

/-- Registers a type. -/
def register (r : TypeRegistry) (name : Datum) (lexis : Lexis) (priority : Option Int) :
    Except ExtensionError TypeRegistry :=
  (accept name lexis priority).map fun type => ⟨insert type r.types⟩

/-- Registers a type that has already been put together. -/
def registerType (r : TypeRegistry) (type : TokenType) : Except ExtensionError TypeRegistry :=
  r.register (.text type.name) type.lexis type.priority

/-- The first type of a name. -/
def find? (r : TypeRegistry) (name : String) : Option TokenType :=
  r.types.find? (·.name = name)

/-- A type of this name is registered. -/
def has (r : TypeRegistry) (name : String) : Bool := r.types.any (·.name = name)

/-- The names of the types, in the order in which they are tried. -/
def names (r : TypeRegistry) : List String := r.types.map (·.name)

/-- The registry with those of the given types whose names are not there yet. -/
def complete (r : TypeRegistry) (types : List TokenType) : TypeRegistry :=
  types.foldl (fun r type => if r.has type.name then r else ⟨insert type r.types⟩) r

end TypeRegistry

end CommandBatch
