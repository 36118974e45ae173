import CommandBatch.Token.Basic
import CommandBatch.Text.Case

/-!
# Symbols, truth values and references

The three types whose tokens are single words: operators, the words for true and false, and the
names of variables behind their sigil.
-/

namespace CommandBatch.Token

open Text

/-- The characters of symbols. -/
def symbolChars : List Char :=
  ['+', '=', '-', '>', '<', '*', '&', '^', '%', '!', '~', '/', '?', '|']

/-- The symbols that are operators. -/
def operators : List String :=
  ["=", "+", "-", "/", "*", "&", "|", "^", "%", ">", "<",
    "==", "+=", "-=", "/=", "*=", "&=", "|=", "^=", "%=", ">=", "<="]

/-- The value of a word that should be an operator. -/
def parseSymbol (literal : String) : Value :=
  let text := strip literal
  if operators.contains text then ⟨TypeName.symbol, .text text, none⟩ else .refused text

/-- Runs of symbol characters that are operators. -/
def symbol : TokenType where
  name := TypeName.symbol
  lexis := .ofClasses symbolChars.contains (!symbolChars.contains ·)
    fun literal => .ok (.value (parseSymbol literal))

/-- The value of a word that should be true or false. -/
def parseBool (literal : String) : Value :=
  let text := upper (strip literal)
  if text = "T" ∨ text = "TRUE" then ⟨TypeName.bool, .bool true, none⟩
  else if text = "F" ∨ text = "FALSE" then ⟨TypeName.bool, .bool false, none⟩
  else .refused (strip literal)

/-- Words that begin with a small `t` or `f`, up to a space or a tab, and mean true or false in any
case. -/
def bool : TokenType where
  name := TypeName.bool
  lexis := .ofClasses (fun c => c = 't' || c = 'f') (fun c => c = ' ' || c = '\t')
    fun literal => .ok (.value (parseBool literal))

/-- The sign in front of the name of a variable. -/
def sigil : Char := '$'

/-- A character of the name of a variable. -/
def isNameChar (c : Char) : Bool :=
  ('a' ≤ c && c ≤ 'z') || ('A' ≤ c && c ≤ 'Z') || ('0' ≤ c && c ≤ '9') || c = '_'

/-- The text is the sigil and a name. -/
def isReference : List Char → Bool
  | c :: name => c = sigil && !name.isEmpty && name.all isNameChar
  | [] => false

/-- The value of a word that should refer to a variable. -/
def parseReference (literal : String) : Value :=
  let text := strip literal
  if isReference text.toList then ⟨TypeName.reference, .text text, none⟩ else .refused text

/-- The sigil and the name of a variable. -/
def reference : TokenType where
  name := TypeName.reference
  lexis := .ofClasses (· = sigil) (!isNameChar ·)
    fun literal => .ok (.value (parseReference literal))

end CommandBatch.Token
