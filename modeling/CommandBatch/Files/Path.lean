import CommandBatch.Text.Pieces

/-!
# Paths

A path is a text of names between slashes. It is absolute if it begins with a slash. The normal form
of an absolute path has no empty name, no `.` and no `..`; it begins with one slash, or with two
where the path begins with exactly two.
-/

namespace CommandBatch.Files.Path

open Text

/-- The path begins at the root. -/
def isAbsolute (path : String) : Bool := path.toList.head? == some '/'

/-- The names of a path in order, with the empty ones and those that stand for a directory. -/
def names (path : String) : List String := (piecesAt '/' path.toList).map .ofList

/-- A path below another. An absolute path stands for itself. -/
def below (base path : String) : String :=
  if isAbsolute path then path
  else if base = "" ∨ base.toList.getLast? = some '/' then base ++ path
  else base ++ "/" ++ path

/-- What comes behind the last slash. -/
def lastPart (cs : List Char) : List Char := (cs.reverse.takeWhile (· ≠ '/')).reverse

/-- What comes up to the last slash, with it. -/
def firstPart (cs : List Char) : List Char := (cs.reverse.dropWhile (· ≠ '/')).reverse

/-- The name that a path ends with; it is empty behind a slash. -/
def baseName (path : String) : String := .ofList (lastPart path.toList)

/-- The path of the directory that a path is in. -/
def parent (path : String) : String :=
  let first := firstPart path.toList
  if first.all (· = '/') then .ofList first
  else .ofList (first.reverse.dropWhile (· = '/')).reverse

/-- The path ends with a suffix. -/
def endsIn (suffix path : String) : Bool := suffix.toList.isSuffixOf path.toList

/-- A name without its last dot and what follows it. Dots at the beginning do not count. -/
def stem (name : String) : String :=
  match name.toList.reverse.dropWhile (· ≠ '.') with
  | [] => name
  | _ :: rest => if rest.all (· = '.') then name else .ofList rest.reverse

/-- The slashes that the normal form of an absolute path begins with. -/
def root : List Char → List Char
  | '/' :: '/' :: '/' :: _ => ['/']
  | '/' :: '/' :: _ => ['/', '/']
  | _ => ['/']

/-- The names of a directory, last first, after one more name has been followed. -/
def enter (stack : List String) (name : String) : List String :=
  if name = "" ∨ name = "." then stack
  else if name = ".." then stack.tail
  else name :: stack

/-- The names of the normal form of an absolute path. -/
def plainNames (path : String) : List String := ((names path).foldl enter []).reverse

/-- The normal form of an absolute path. -/
def normal (path : String) : String :=
  .ofList (root path.toList) ++ "/".intercalate (plainNames path)

/-- The normal form of a path that is seen from a working directory. -/
def absolute (directory path : String) : String := normal (below directory path)

end CommandBatch.Files.Path
