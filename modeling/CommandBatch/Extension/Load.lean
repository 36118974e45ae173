import CommandBatch.Extension.Pointer
import CommandBatch.Text.Case

/-!
# Loading extensions

Extensions are named by the path of their file, by a pointer file, or, where there is no such path,
by the name of a bundled one. They are installed one after the other, up to the first that cannot
be.
-/

namespace CommandBatch.Extension.Installation

open Files Text

variable {σ : Type}

/-- The path of the bundled extension of a name. -/
def bundled? (w : Installation σ) (name : String) : Option String :=
  let file := if Path.endsIn moduleSuffix name then name else name ++ moduleSuffix
  let path := Path.below w.bundled file
  if w.has path then some path else none

/-- The paths of the files that a name on the command line stands for. -/
def expand (w : Installation σ) (name : String) : Except Fault (List String) :=
  if Path.endsIn pointerSuffix (lower name) then w.readPointer name
  else if w.has name then .ok [name]
  else .ok [(w.bundled? name).getD name]

/-- The normal paths of the files that some names stand for. -/
def gather (w : Installation σ) (names : List String) : Except Fault (List String) := do
  let paths ← names.mapM w.expand
  return paths.flatten.map w.absolute

/-- Services with the types that every engine has and the extensions of some names. -/
def load (w : Installation σ) (names : List String) (host : σ) :
    Except Fault (Services σ × σ) := do
  let paths ← w.gather names
  paths.foldlM (fun (services, host) path => do
    let (_, services, host) ← w.install path services host
    return (services, host)) (.standard, host)

end CommandBatch.Extension.Installation
