import CommandBatch.Extension.Module
import CommandBatch.Text.Blank

/-!
# Pointer files

A pointer file names extension files, one on a line. Blank margins do not count, nor does what
follows a number sign. A path that is not absolute starts from the directory of the pointer file.
-/

namespace CommandBatch.Extension

open Files Text

variable {σ : Type}

/-- What the names of pointer files end with. -/
def pointerSuffix : String := ".cmdx"

/-- The path that a line of a pointer file holds. -/
def entry? (line : String) : Option String :=
  match trim (line.toList.takeWhile (· ≠ '#')) with
  | [] => none
  | path => some (.ofList path)

/-- The path that an entry of a pointer file in a directory leads to. -/
def resolveEntry (directory path : String) : String :=
  if Path.isAbsolute path then path else Path.absolute directory path

/-- The paths that the text of a pointer file in a directory leads to. -/
def entriesOf (directory text : String) : List String :=
  ((lines text).filterMap entry?).map (resolveEntry directory)

namespace Installation

/-- The text of the file at a path. -/
def readText (w : Installation σ) (path : String) : Except Fault String :=
  match w.read path with
  | .error e => .error (.outside (.access e))
  | .ok file => (decodeUtf8 file.bytes).mapError fun e => .outside (.undecodable e)

/-- The paths that the pointer file at a path leads to. -/
def readPointer (w : Installation σ) (path : String) : Except Fault (List String) :=
  if !w.has path then .error (.extension (.missingPointer path))
  else do
    let text ← w.readText path
    return entriesOf (Path.parent (w.absolute path)) text

end Installation

end CommandBatch.Extension
