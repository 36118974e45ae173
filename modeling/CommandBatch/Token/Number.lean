import CommandBatch.Token.Symbol

/-!
# Numbers

A number is whole, or decimal with a point. A minus sign begins a number too, so the operators that
begin with one are read here and come out as symbols.
-/

namespace CommandBatch.Token

open Text Decimal

/-- The characters of numbers. -/
def numerals : List Char :=
  ['.', '0', '1', '2', '3', '4', '5', '6', '7', '8', '9']

/-- Digits with one point among them, at least one digit: the digits on the two sides. -/
def places? (cs : List Char) : Option (List Nat × List Nat) :=
  match cs.span (· ≠ '.') with
  | (whole, '.' :: fraction) =>
    match digits? whole, digits? fraction with
    | some whole, some fraction =>
      if whole.isEmpty && fraction.isEmpty then none else some (whole, fraction)
    | _, _ => none
  | _ => none

/-- The number that a numeral writes: a whole number of digits alone, a floating-point number of
digits with a point; nothing for any other text. -/
def numeral? (cs : List Char) : Except NumeralError (Option Datum) :=
  let (negative, body) := splitMinus cs
  match digits? body with
  | some (d :: ds) => do
    let digits ← withinLimit (d :: ds)
    return some (.whole (signed negative (ofDigits digits)))
  | _ =>
    match places? body with
    | some (whole, fraction) =>
      let x := ofPlaces whole fraction 0
      .ok (some (.float (if negative then -x else x)))
    | none => .ok none

/-- The value of a token that should be a number or an operator. -/
def parseNumber (literal : String) : Except NumeralError Value :=
  let text := strip literal
  if operators.contains text then .ok ⟨TypeName.symbol, .text text, none⟩
  else do
    match ← numeral? text.toList with
    | some d => return ⟨TypeName.number, d, none⟩
    | none => return .refused text

/-- Runs of digits and points, perhaps behind a minus sign. -/
def number : TokenType where
  name := TypeName.number
  lexis := .ofClasses (fun c => numerals.contains c || c = '-') (!numerals.contains ·)
    fun literal =>
      match parseNumber literal with
      | .ok v => .ok (.value v)
      | .error e => .error (.ofConversion (.numeral e))

end CommandBatch.Token
