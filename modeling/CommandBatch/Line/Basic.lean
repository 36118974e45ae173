import CommandBatch.Token.Basic
import CommandBatch.Text.Case

/-!
# Reading a line

A line is a command word and arguments, with separators between them. Each argument begins with a
character that some type claims; the first such type then tells where the argument ends and what it
means. The reader passes over the characters once. It is between two arguments, inside one, or
behind one that has been closed by a character of its own and still wants a separator.
-/

namespace CommandBatch

open Text

/-- A line that has been read. A line without a command is empty. -/
structure Line where
  command : String := ""
  args : List Value := []

/-- The line holds no command. -/
def Line.isEmpty (l : Line) : Bool := l.command == ""

/-- The marks of a line: the characters between arguments, and the text that begins a comment. -/
structure Marks where
  separators : List Char := [' ', '\t']
  comment : List Char := ['#']

/-- The character stands between arguments. -/
def Marks.separates (m : Marks) (c : Char) : Bool := m.separators.contains c

/-- The text in front of a first comment mark is nothing. -/
def Marks.isComment (m : Marks) (text : List Char) : Bool := m.comment.isPrefixOf text

/-- Where the reader of arguments stands. The characters of the argument being read are kept last
first. -/
inductive Position where
  /-- No argument has begun. -/
  | between
  /-- Inside an argument that began in column `start`. -/
  | inside (type : TokenType) (scratch : Scratch) (start : Nat) (read : List Char)
  /-- Behind an argument that was closed by its own last character. -/
  | closed (type : TokenType) (start : Nat) (read : List Char)

namespace Line

/-- The first type that claims a character, with what it notes about it. -/
def claim (types : List TokenType) (c : Char) (column : Nat) :
    Except Fault (TokenType × Scratch) :=
  match types with
  | [] => .error (.ofReason (.unclaimed c column))
  | type :: types => do
    let (begins, scratch) ← type.lexis.begins c {}
    if begins then return (type, scratch) else claim types c column

/-- The value of a finished argument: what the type makes of it, with its text without blank
margins. -/
def finish (type : TokenType) (literal : List Char) (start : Nat) : Except Fault Value :=
  let shown := String.ofList (trim literal)
  match type.lexis.parse (.ofList literal) with
  | .error f => .error (.ofReason (.parserFailed type.name shown f.asOrigin start))
  | .ok (.data d) => .error (.ofReason (.parserAnswered type.name d.kind start))
  | .ok (.value v) =>
    if v.isError then .error (.ofReason (.invalidLiteral type.name shown start))
    else .ok { v with literal := some shown }

/-- The arguments in the characters from `column` on. -/
def readArguments (types : List TokenType) (marks : Marks) :
    Position → Nat → List Char → Except Fault (List Value)
  | .between, _, [] => .ok []
  | .inside type _ start _, _, [] => .error (.ofReason (.unclosed type.name start))
  | .closed type start _, _, [] => .error (.ofReason (.unclosed type.name start))
  | .between, column, c :: cs =>
    if marks.separates c then readArguments types marks .between (column + 1) cs
    else do
      let (type, scratch) ← claim types c column
      readArguments types marks (.inside type scratch column [c]) (column + 1) cs
  | .inside type scratch start read, column, c :: cs => do
    let (ends, scratch) ← type.lexis.ends c scratch
    if ends then
      if marks.separates c then
        let v ← finish type read.reverse start
        return v :: (← readArguments types marks .between (column + 1) cs)
      else readArguments types marks (.closed type start (c :: read)) (column + 1) cs
    else readArguments types marks (.inside type scratch start (c :: read)) (column + 1) cs
  | .closed type start read, column, c :: cs =>
    if marks.separates c then do
      let v ← finish type read.reverse start
      return v :: (← readArguments types marks .between (column + 1) cs)
    else .error (.ofReason (.glued c type.name column))

/-- Reads a line without blank margins that is neither empty nor a comment. A separator is added at
its end, so that the last argument is closed like the others. -/
def readText (types : List TokenType) (marks : Marks) (text : List Char) : Except Fault Line :=
  match marks.separators with
  | [] => .error (.outside .noFirstSeparator)
  | separator :: _ => do
    let text := text ++ [separator]
    let margin := text.takeWhile marks.separates
    let body := text.dropWhile marks.separates
    let word := body.takeWhile (!marks.separates ·)
    if word.isEmpty then return {}
    let rest := body.dropWhile (!marks.separates ·)
    let args ← readArguments types marks .between (margin.length + word.length) rest
    return ⟨.ofList (upperList word), args⟩

/-- Reads a line. -/
def read (types : List TokenType) (marks : Marks) (line : String) : Except Fault Line :=
  let text := trim line.toList
  if text.isEmpty || marks.isComment text then .ok {} else readText types marks text

end Line

end CommandBatch
