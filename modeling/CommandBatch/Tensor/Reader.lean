import CommandBatch.Tensor.Basic
import CommandBatch.Decimal.FloatText

/-!
# Reading arrays

An array is written as numerals and groups between brackets, separated by blanks or commas. The
reader keeps the groups that are still open on a stack, so one pass over the tokens suffices.
-/

namespace CommandBatch.Tensor

open Text Decimal

/-- A piece of the text of an array. -/
inductive Token where
  | opening
  | closing
  | numeral (text : List Char)
  deriving DecidableEq, Repr

/-- The token that a word is. -/
def Token.ofWord (word : List Char) : Token :=
  if word = ['['] then .opening else if word = [']'] then .closing else .numeral word

/-- A character with the blanks that part it from its neighbours. -/
def spaced (c : Char) : List Char :=
  if c = '[' ∨ c = ']' then [' ', c, ' '] else if c = ',' then [' '] else [c]

/-- The tokens of a text: brackets stand for themselves, and commas are blanks. -/
def tokens (cs : List Char) : List Token :=
  (words (cs.flatMap spaced)).map Token.ofWord

/-- Why a text is no array. -/
inductive ReadError where
  | unbalanced
  | numeral (e : NumeralError)
  deriving DecidableEq, Repr

/-- Reads items up to the bracket that closes their group. `items` are those of the innermost open
group and `outer` those of the groups around it, all of them last first. The result is the items
of the outermost group and the tokens behind it. -/
def readItems (items : List Nested) (outer : List (List Nested)) :
    List Token → Except ReadError (List Nested × List Token)
  | [] => .error .unbalanced
  | .closing :: rest =>
    match outer with
    | [] => .ok (items.reverse, rest)
    | around :: outer => readItems (.group items.reverse :: around) outer rest
  | .opening :: rest => readItems [] (items :: outer) rest
  | .numeral cs :: rest =>
    match readFloat (.ofList cs) with
    | .ok x => readItems (.number x :: items) outer rest
    | .error e => .error (.numeral e)

/-- The tensor that a text writes. The first token is taken to open the outermost group. -/
def read? (cs : List Char) : Option Tensor :=
  match readItems [] [] ((tokens cs).drop 1) with
  | .ok (items, []) =>
    (ofNested? (.group items)).bind fun t => if t.size = 0 then none else some t
  | _ => none

end CommandBatch.Tensor
