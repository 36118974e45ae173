import CommandBatch.Token.Basic

/-!
# Strings

A string stands between two equal quotes. Inside, a backslash takes the next character with it:
`n` and `t` are a line feed and a tab then, and any other character is itself.
-/

namespace CommandBatch.Token

open Text

/-- The characters that begin and end strings. -/
def isQuote (c : Char) : Bool := c = '"' || c = '\''

/-- What a character stands for behind a backslash. -/
def escaped (c : Char) : Char :=
  if c = 'n' then '\n' else if c = 't' then '\t' else c

/-- The text that the inside of a string writes. A backslash with nothing behind it is itself. -/
def unescape : List Char → List Char
  | '\\' :: c :: cs => escaped c :: unescape cs
  | c :: cs => c :: unescape cs
  | [] => []

/-- The inside of a text that begins and ends with the same quote. -/
def insideQuotes? (cs : List Char) : Option (List Char) :=
  match cs with
  | q :: c :: rest =>
    if isQuote q && (c :: rest).getLast? == some q then some (c :: rest).dropLast else none
  | _ => none

/-- The value of a token that should be a string. -/
def parseString (literal : String) : Value :=
  let text := strip literal
  match insideQuotes? text.toList with
  | some body => ⟨TypeName.string, .text (.ofList (unescape body)), none⟩
  | none => .refused text

/-- Whether a character ends a string, and what is noted for the next one. -/
def stringEnds (c : Char) (s : Scratch) : Bool × Scratch :=
  if s.escape then (false, { s with escape := false })
  else if c = '\\' then (false, { s with escape := true })
  else (s.quote == some c, s)

/-- Texts between quotes. -/
def string : TokenType where
  name := TypeName.string
  lexis := {
    begins c s := .ok (if isQuote c then (true, { s with quote := some c }) else (false, s))
    ends c s := .ok (stringEnds c s)
    parse literal := .ok (.value (parseString literal)) }

end CommandBatch.Token
