import CommandBatch.Host.Script
import CommandBatch.Registry.Types
import CommandBatch.Registry.Commands
import CommandBatch.Token.Defaults

/-!
# The services of an engine

The registries that an engine works with. Extensions fill them before the engine is made, by
registrations that are carried out one after the other until one is refused.
-/

namespace CommandBatch

/-- What an extension says about itself. -/
structure Metadata where
  name : String
  version : String := "0.0.0"
  requires : Int := interfaceVersion
  deriving DecidableEq, Repr

/-- The registries of an engine. -/
structure Services (σ : Type) where
  metadata : List Metadata := []
  types : TypeRegistry := {}
  commands : CommandRegistry (Handler σ) := {}
  hooks : HookRegistry (Notice → Script σ) (StepContext → Script σ) := {}

/-- What an extension asks for. -/
inductive Registration (σ : Type) where
  | metadata (m : Metadata)
  | type (name : Datum) (lexis : Lexis) (priority : Option Int)
  | command (d : Declaration) (handler : Option (Handler σ))
  | hook (event : String) (priority : Int) (handler : Notice → Script σ)
  | stepRule (every : Int) (name : String) (handler : StepContext → Script σ)

namespace Services

variable {σ : Type}

/-- Services with the types that every engine has. -/
def standard : Services σ := { types := ⟨Token.defaults⟩ }

/-- Carries out a registration for an extension. -/
def register (s : Services σ) (owner : String) :
    Registration σ → Except ExtensionError (Services σ)
  | .metadata m => .ok { s with metadata := s.metadata ++ [m] }
  | .type name lexis priority =>
    (s.types.register name lexis priority).map fun types => { s with types }
  | .command d handler =>
    (d.command handler).map fun c => { s with commands := s.commands.register c }
  | .hook event priority handler =>
    (s.hooks.onEvent event handler priority owner).map fun hooks => { s with hooks }
  | .stepRule every name handler =>
    (s.hooks.everySteps every handler owner name).map fun hooks => { s with hooks }

/-- Carries out registrations one after the other, up to the first that is refused. -/
def registerAll (s : Services σ) (owner : String) (rs : List (Registration σ)) :
    Except ExtensionError (Services σ) :=
  rs.foldlM (·.register owner) s

end Services

end CommandBatch
