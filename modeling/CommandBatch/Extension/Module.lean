import CommandBatch.Host.Services

/-!
# Extension modules

A file may hold an extension: a module that gives its name, the version of the interface that it was
written for, and an entry. Entering it fills the services. Modules are found in a workspace, or
among the bundled ones.

What becomes of a file that is loaded as a module is not settled here: it is source text, compiled
code or a library of the machine. A file says what it comes to, and that may be any error.
-/

namespace CommandBatch.Extension

open Files

variable {σ : Type}

/-- What a file says as an extension. -/
structure Module (σ : Type) where
  /-- The name that it gives itself. -/
  name : Option Datum := none
  /-- The version of the interface that it was written for. -/
  version : Option Datum := none
  /-- What its entry does, told the extension's name: it makes registrations or breaks off. There is
  no entry where there is nothing that can be called. -/
  entry : Option (String → σ → Except Fault (List (Registration σ)) × σ) := none

/-- A file: its bytes, and what it comes to when it is loaded as a module. -/
structure SourceFile (σ : Type) where
  bytes : List UInt8 := []
  loaded : Except Fault (Module σ) := .ok {}

/-- What the interpreter finds around it. -/
structure Installation (σ : Type) extends Workspace (SourceFile σ) where
  /-- The path of the directory of the bundled extensions. -/
  bundled : String

/-- What the names of modules in source text end with. -/
def moduleSuffix : String := ".py"

/-- What the names of modules in compiled code end with. -/
def compiledSuffix : String := ".pyc"

/-- What the names of modules that are libraries of the machine end with. -/
def librarySuffix : String := ".so"

/-- A path that there is a way to load a module from. -/
def isLoadable (path : String) : Bool :=
  [moduleSuffix, compiledSuffix, librarySuffix].any fun suffix => Path.endsIn suffix path

/-- The error of loading a module from a path that nothing can be read at. -/
def loadError (path : String) : AccessError → OutsideError
  | .blocked .isADirectory place =>
    if Path.endsIn librarySuffix path then
      .custom "ImportError" s!"{place}: cannot read file data: Is a directory"
    else .access (.blocked .isADirectory place)
  | e => .access e

/-- The version is that of the interface. -/
def isCurrent : Datum → Bool
  | .whole i => i == interfaceVersion
  | .float x => x == Float.ofInt interfaceVersion
  | .bool b => b
  | _ => false

namespace Module

/-- The version that a module was written for; where it gives none, that of the interface. -/
def writtenFor (m : Module σ) : Datum := m.version.getD (.whole interfaceVersion)

/-- The name of the extension at a path: what the module says, or the name of its file. -/
def nameAt (m : Module σ) (path : String) : Except ConversionError String :=
  match m.name with
  | some d => d.toText
  | none => .ok (Path.stem (Path.baseName path))

/-- The refusal of a module at a path for its version. -/
def versionError (m : Module σ) (path : String) : Fault :=
  match m.writtenFor.toText with
  | .ok shown => .extension (.version path shown)
  | .error e => .ofConversion e

/-- Enters the module of a path: checks that it fits, and lets it make its registrations. -/
def install (m : Module σ) (path : String) (services : Services σ) (host : σ) :
    Except Fault (String × Services σ × σ) :=
  if !isCurrent m.writtenFor then .error (m.versionError path)
  else
    match m.entry with
    | none => .error (.extension (.noEntry path))
    | some enter =>
      match m.nameAt path with
      | .error e => .error (.ofConversion e)
      | .ok name =>
        match enter name host with
        | (.error f, _) => .error f
        | (.ok rs, host) =>
          match services.registerAll name rs with
          | .error e => .error (.ofRefusal e)
          | .ok services => .ok (name, services, host)

end Module

namespace Installation

/-- The module at a path. -/
def moduleAt (w : Installation σ) (path : String) : Except Fault (Module σ) :=
  if !w.has path then .error (.extension (.missing path))
  else if !isLoadable path then .error (.extension (.notLoadable path))
  else
    match w.read (Path.below w.directory path) with
    | .ok file => file.loaded
    | .error e => .error (.outside (loadError path e))

/-- Enters the module at a path. -/
def install (w : Installation σ) (path : String) (services : Services σ) (host : σ) :
    Except Fault (String × Services σ × σ) := do
  let m ← w.moduleAt path
  m.install path services host

end Installation

end CommandBatch.Extension
