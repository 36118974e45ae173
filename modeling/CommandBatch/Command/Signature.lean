import CommandBatch.Command.Parameter

/-!
# Commands

A command has a name, parameters and a description. Hosts declare commands with plain data, and a
declaration that makes no sense is refused.
-/

namespace CommandBatch

open Text

/-- What a command looks like from outside. -/
structure Signature where
  /-- The name, in upper case. -/
  name : String
  params : List Parameter
  description : String := ""
  /-- The command appears in lists of commands. -/
  listed : Bool := true
  /-- The type of the result, for the usage text only. -/
  returns : String := TypeName.any
  deriving DecidableEq, Repr

/-- What a host says about a command. -/
structure Declaration where
  name : Datum
  params : List String := []
  description : String := ""
  listed : Bool := true
  returns : String := TypeName.any

/-- A command: its signature and what is called with its arguments. -/
structure Command (H : Type) where
  signature : Signature
  handler : H

namespace Signature

/-- The least number of arguments. -/
def least (s : Signature) : Nat := s.params.countP (!·.optional)

/-- The greatest number of arguments. -/
def most (s : Signature) : Nat := s.params.length

/-- The name with the parameters, and the type of the result if one is declared. -/
def usage (s : Signature) : String :=
  " ".intercalate (s.name :: s.params.map Parameter.describe ++
    if s.returns = TypeName.any then [] else ["->", s.returns])

/-- The declaration that gives a signature. -/
def declaration (s : Signature) : Declaration where
  name := .text s.name
  params := s.params.map (·.source)
  description := s.description
  listed := s.listed
  returns := s.returns

end Signature

namespace Declaration

/-- The datum is a text without blanks that is not empty. -/
def word? : Datum → Option String
  | .text s => if s = "" ∨ s.toList.any isBlank then none else some s
  | _ => none

/-- The signature that a declaration gives, if its name is a word, the handler is callable and the
parameters make sense. -/
def signature (d : Declaration) (callable : Bool) : Except ExtensionError Signature :=
  match word? d.name with
  | none => .error (.notAWord d.name.toQuoted.toOption)
  | some name =>
    if callable then do
      let params ← Parameter.parseAll d.params
      return ⟨upper name, params, d.description, d.listed, lower d.returns⟩
    else .error (.notCallable d.name.quoted)

/-- The command that a declaration and a handler give. -/
def command {H : Type} (d : Declaration) (handler : Option H) :
    Except ExtensionError (Command H) :=
  match d.signature handler.isSome, handler with
  | .ok signature, some handler => .ok ⟨signature, handler⟩
  | .ok _, none => .error (.notCallable d.name.quoted)
  | .error e, _ => .error e

end Declaration

end CommandBatch
