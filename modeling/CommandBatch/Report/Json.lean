import CommandBatch.Decimal.Integer

/-!
# Structured reports

The part of JSON that reports need, and its text: indented by two spaces a level, with every
character outside ASCII written by its UTF-16 units.
-/

namespace CommandBatch.Report

open Text

/-- A structured report. -/
inductive Json where
  | null
  | whole (i : Int)
  | text (s : String)
  | list (items : List Json)
  | fields (items : List (String × Json))

/-- A UTF-16 unit by its number. -/
def unitText (code : Nat) : List Char := '\\' :: 'u' :: hexDigits 4 code

/-- A character in a quoted text. -/
def escapeChar (c : Char) : List Char :=
  let n := c.toNat
  if c = '"' || c = '\\' then ['\\', c]
  else if c = '\n' then ['\\', 'n']
  else if c = '\r' then ['\\', 'r']
  else if c = '\t' then ['\\', 't']
  else if n = 8 then ['\\', 'b']
  else if n = 12 then ['\\', 'f']
  else if 0x20 ≤ n && n < 0x7F then [c]
  else if n < 0x10000 then unitText n
  else
    unitText (0xD800 + (n - 0x10000) / 0x400) ++ unitText (0xDC00 + (n - 0x10000) % 0x400)

/-- A text between quotes. -/
def textJson (s : String) : List Char := '"' :: s.toList.flatMap escapeChar ++ ['"']

/-- A new line at a depth. -/
def newLine (depth : Nat) : List Char := '\n' :: List.replicate (2 * depth) ' '

/-- Items on lines of their own between brackets; an empty pair of brackets where there are none. -/
def bracketed (opening closing : Char) (depth : Nat) (items : List (List Char)) : List Char :=
  if items.isEmpty then [opening, closing]
  else
    opening :: newLine (depth + 1) ++ (',' :: newLine (depth + 1)).intercalate items ++
      newLine depth ++ [closing]

namespace Json

mutual
/-- The text of a report that stands at a depth. -/
def render (depth : Nat) : Json → List Char
  | .null => ['n', 'u', 'l', 'l']
  | .whole i => (Decimal.wholeText i).toList
  | .text s => textJson s
  | .list items => bracketed '[' ']' depth (renderItems (depth + 1) items)
  | .fields items => bracketed '\x7b' '\x7d' depth (renderFields (depth + 1) items)

/-- The texts of the items of a list. -/
def renderItems (depth : Nat) : List Json → List (List Char)
  | [] => []
  | item :: items => render depth item :: renderItems depth items

/-- The texts of the fields of a record. -/
def renderFields (depth : Nat) : List (String × Json) → List (List Char)
  | [] => []
  | (name, value) :: items =>
    (textJson name ++ ':' :: ' ' :: render depth value) :: renderFields depth items
end

/-- The text of a report. -/
def pretty (j : Json) : String := .ofList (render 0 j)

end Json

end CommandBatch.Report
