import CommandBatch.Decimal.FloatText
import CommandBatch.Proofs.Decimal.Digits
import CommandBatch.Proofs.Text.Characters
import CommandBatch.Proofs.Text.Margins
import CommandBatch.Token.Defaults

/-!
# Literals

The texts that the types of every engine read, by their grammar and not by their reading: numbers,
operators, truth values, strings and references.  A literal has a text, and the type and the datum
that it denotes.  No literal has a margin.
-/

namespace CommandBatch.Token

open Text Decimal

/-- A character inside a string, as it is written. -/
inductive Glyph where
  /-- It stands for itself. -/
  | plain (c : Char)
  /-- It stands behind a backslash. -/
  | escape (c : Char)
  deriving DecidableEq, Repr

namespace Glyph

def text : Glyph → List Char
  | plain c => [c]
  | escape c => ['\\', c]

def meaning : Glyph → Char
  | plain c => c
  | escape c => escaped c

/-- The character can be written so between two quotes `q`. -/
def Fits (q : Char) : Glyph → Prop
  | plain c => c ≠ q ∧ c ≠ '\\'
  | escape _ => True

end Glyph

/-- A text that one of the types of every engine reads. -/
inductive Literal where
  /-- A whole number: perhaps a minus sign, and digits. -/
  | whole (negative : Bool) (digits : List Char)
  /-- A decimal number: perhaps a minus sign, and digits on the two sides of a point. -/
  | decimal (negative : Bool) (units fraction : List Char)
  | operator (symbol : String)
  /-- A word for a truth value. -/
  | truth (b : Bool) (word : List Char)
  /-- A string between two quotes. -/
  | quoted (quote : Char) (inside : List Glyph)
  | reference (name : List Char)
  deriving DecidableEq, Repr

/-- The sign in front of a number. -/
def minus (negative : Bool) : List Char := if negative then ['-'] else []

/-- The words for a truth value, in small letters. -/
def truthWords : Bool → List (List Char)
  | true => [['t'], ['t', 'r', 'u', 'e']]
  | false => [['f'], ['f', 'a', 'l', 's', 'e']]

/-- The whole number that common digits write, the last of them for the ones. -/
def wholeOf (digits : List Char) : Nat :=
  Nat.ofDigits 10 (digits.reverse.map fun c => c.toNat - '0'.toNat)

namespace Literal

/-- The text of a literal. -/
def text : Literal → List Char
  | whole negative digits => minus negative ++ digits
  | decimal negative units fraction => minus negative ++ (units ++ '.' :: fraction)
  | operator symbol => symbol.toList
  | truth _ word => word
  | quoted quote inside => quote :: (inside.flatMap Glyph.text ++ [quote])
  | reference name => sigil :: name

/-- The literal follows its grammar.  Digits are common digits, a whole number has no more of them
than can be read, and a word for a truth value may have any case behind its first letter. -/
def WellFormed : Literal → Prop
  | whole _ digits => digits ≠ [] ∧ (∀ c ∈ digits, c.isDigit = true) ∧ digits.length ≤ digitLimit
  | decimal _ units fraction => (units ≠ [] ∨ fraction ≠ []) ∧ (∀ c ∈ units, c.isDigit = true) ∧
      ∀ c ∈ fraction, c.isDigit = true
  | operator symbol => symbol ∈ operators
  | truth b word => word.map Char.toLower ∈ truthWords b ∧
      word.head? = (word.map Char.toLower).head?
  | quoted quote inside => isQuote quote = true ∧ ∀ g ∈ inside, g.Fits quote
  | reference name => name ≠ [] ∧ ∀ c ∈ name, isNameChar c = true

/-- The type that a literal denotes a datum of. -/
def type : Literal → String
  | whole .. | decimal .. => TypeName.number
  | operator _ => TypeName.symbol
  | truth .. => TypeName.bool
  | quoted .. => TypeName.string
  | reference _ => TypeName.reference

/-- The datum that a literal denotes.  For a decimal number it is the floating-point number that its
text is read as. -/
def Means : Literal → Datum → Prop
  | whole negative digits, d => d = .whole (signed negative (wholeOf digits))
  | decimal negative units fraction, d =>
      ∃ x, readFloat (.ofList (minus negative ++ (units ++ '.' :: fraction))) = .ok x ∧ d = .float x
  | operator symbol, d => d = .text symbol
  | truth b _, d => d = .bool b
  | quoted _ inside, d => d = .text (.ofList (inside.map Glyph.meaning))
  | reference name, d => d = .text (.ofList (sigil :: name))

/-- The value of an argument that is written as a literal. -/
def Denotes (l : Literal) (v : Value) : Prop :=
  v.type = l.type ∧ l.Means v.datum ∧ v.literal = some (.ofList l.text)

/-- A literal has one value. -/
theorem Denotes.unique {l : Literal} {v v' : Value} (h : l.Denotes v) (h' : l.Denotes v') :
    v = v' := by
  obtain ⟨type, datum, literal⟩ := v
  obtain ⟨type', datum', literal'⟩ := v'
  obtain ⟨htype, hmeans, hliteral⟩ := h
  obtain ⟨htype', hmeans', hliteral'⟩ := h'
  simp only at htype htype' hmeans hmeans' hliteral hliteral'
  have hdatum : datum = datum' := by
    cases l with
    | decimal =>
      obtain ⟨x, hx, rfl⟩ := hmeans
      obtain ⟨x', hx', rfl⟩ := hmeans'
      rw [hx] at hx'
      cases hx'
      rfl
    | _ => exact hmeans.trans hmeans'.symm
  rw [htype, htype', hdatum, hliteral, hliteral']

end Literal

end CommandBatch.Token
