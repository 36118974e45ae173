import CommandBatch.Files.Path
import CommandBatch.Text.Quoted

/-!
# File trees

Files and directories by their place, which is the list of names from the root. A directory is there
if it is listed or if something in it is. A path is followed name by name; it may lead nowhere, and
the obstacle is part of the message to the user.
-/

namespace CommandBatch.Files

open Text

/-- What is at a place. -/
inductive Node (α : Type) where
  | directory
  | file (content : α)

/-- What is in the way to a file. -/
inductive Obstacle where
  | missing
  | notADirectory
  | isADirectory
  | nameTooLong
  deriving DecidableEq, Repr

/-- The system's number of an obstacle, and its words. -/
def Obstacle.describe : Obstacle → String
  | missing => "[Errno 2] No such file or directory"
  | notADirectory => "[Errno 20] Not a directory"
  | isADirectory => "[Errno 21] Is a directory"
  | nameTooLong => "[Errno 36] File name too long"

/-- The name of the kind of error that an obstacle is. -/
def Obstacle.kind : Obstacle → String
  | missing => "FileNotFoundError"
  | notADirectory => "NotADirectoryError"
  | isADirectory => "IsADirectoryError"
  | nameTooLong => "OSError"

/-- Why a file cannot be read. -/
inductive AccessError where
  /-- There is something in the way to the path. -/
  | blocked (o : Obstacle) (path : String)
  /-- The path holds the null character. -/
  | nullCharacter
  deriving DecidableEq, Repr

/-- The name of the kind of an error. -/
def AccessError.kind : AccessError → String
  | blocked o _ => o.kind
  | nullCharacter => "ValueError"

/-- The wording of an error. -/
def AccessError.message : AccessError → String
  | blocked o path => o.describe ++ ": " ++ quoted path
  | nullCharacter => "embedded null byte"

/-- Files and directories by their place. -/
structure Tree (α : Type) where
  nodes : List (List String × Node α) := []

namespace Tree

variable {α : Type}

/-- What is at a place. -/
def node? (t : Tree α) (place : List String) : Option (Node α) :=
  match t.nodes.find? (·.1 == place) with
  | some (_, node) => some node
  | none => if t.nodes.any (place.isPrefixOf ·.1) then some .directory else none

/-- The greatest number of bytes in a name. -/
def longestName : Nat := 255

/-- Follows names from the directory at a place. -/
def follow (t : Tree α) (place : List String) : List String → Except Obstacle (Node α)
  | [] => .ok .directory
  | name :: names =>
    if name = "" ∨ name = "." then t.follow place names
    else if name = ".." then t.follow place.dropLast names
    else if longestName < name.utf8ByteSize then .error .nameTooLong
    else
      match t.node? (place ++ [name]) with
      | none => .error .missing
      | some .directory => t.follow (place ++ [name]) names
      | some (.file content) => if names = [] then .ok (.file content) else .error .notADirectory

end Tree

/-- A file tree that is seen from a working directory. -/
structure Workspace (α : Type) where
  tree : Tree α := {}
  /-- The absolute path of the working directory. -/
  directory : String := "/"

namespace Workspace

variable {α : Type}

/-- The number of bytes that a path stays below. -/
def pathLimit : Nat := 4096

/-- The normal form of a path. -/
def absolute (w : Workspace α) (path : String) : String := Path.absolute w.directory path

/-- What is at a path. -/
def locate (w : Workspace α) (path : String) : Except AccessError (Node α) :=
  if path.toList.contains (Char.ofNat 0) then .error .nullCharacter
  else if path = "" then .error (.blocked .missing path)
  else if pathLimit ≤ path.utf8ByteSize then .error (.blocked .nameTooLong path)
  else
    match w.tree.follow [] (Path.names (Path.below w.directory path)) with
    | .ok node => .ok node
    | .error o => .error (.blocked o path)

/-- There is something at a path. -/
def has (w : Workspace α) (path : String) : Bool :=
  match w.locate path with
  | .ok _ => true
  | .error _ => false

/-- The content of the file at a path. -/
def read (w : Workspace α) (path : String) : Except AccessError α :=
  match w.locate path with
  | .ok (.file content) => .ok content
  | .ok .directory => .error (.blocked .isADirectory path)
  | .error e => .error e

end Workspace

end CommandBatch.Files
