import CommandBatch.Decimal.Integer
import CommandBatch.Decimal.Shortest

/-!
# Floating-point numbers in texts

Writing a floating-point number with the fewest digits that read back, and reading one from host
text.
-/

namespace CommandBatch.Decimal

open Text

/-- How a floating-point number is laid out. -/
structure FloatFormat where
  /-- Numbers whose point stands behind more places than this have an exponent. -/
  mostPlaces : Int
  /-- Numbers with more zeros than this behind the point have an exponent. -/
  mostZeros : Int
  /-- The least number of digits of an exponent. -/
  exponentDigits : Nat

/-- Up to sixteen places and three leading zeros are written positionally, with `.0` on whole
numbers; exponents have a sign and at least two digits. -/
def FloatFormat.plain : FloatFormat := ⟨16, 3, 2⟩

/-- An exponent with its sign. -/
def exponentText (width : Nat) (e : Int) : List Char :=
  let digits := Nat.toDigits 10 e.natAbs
  'e' :: (if e < 0 then '-' else '+') :: List.replicate (width - digits.length) '0' ++ digits

/-- The digits `ds`, the first of which stands `point` places in front of the point. -/
def layout (format : FloatFormat) (ds : List Char) (point : Int) : List Char :=
  if -format.mostZeros ≤ point ∧ point ≤ format.mostPlaces then
    if point ≤ 0 then '0' :: '.' :: List.replicate (-point).toNat '0' ++ ds
    else
      let places := point.toNat
      if ds.length ≤ places then ds ++ List.replicate (places - ds.length) '0' ++ ['.', '0']
      else ds.take places ++ '.' :: ds.drop places
  else
    ds.take 1 ++ (if ds.length = 1 then [] else '.' :: ds.drop 1) ++
      exponentText format.exponentDigits (point - 1)

/-- The text of a floating-point number. -/
def floatText (x : Float) : String :=
  match floatParts x with
  | .notANumber => "nan"
  | .infinite negative => if negative then "-inf" else "inf"
  | .finite negative m q =>
    let body :=
      if m = 0 then ['0', '.', '0']
      else
        let (ds, e) := (shortest m q).significant
        layout .plain ds (ds.length + e)
    .ofList (if negative then '-' :: body else body)

/-- The floating-point number nearest to `n · 10 ^ e`, where `n` has the given number of digits, the
first of which is not zero. Exponents far beyond both ends of the range are settled without raising
ten to them. -/
def nearest (n digits : Nat) (e : Int) : Float :=
  if n = 0 ∨ digits + e < -400 then 0.0
  else if digits + e > 400 then infinity
  else Float.ofScientific n (e < 0) e.natAbs

/-- The number written by the digits `whole` and `fraction` on the two sides of a point, times
`10 ^ e`. -/
def ofPlaces (whole fraction : List Nat) (e : Int) : Float :=
  let digits := whole ++ fraction
  nearest (ofDigits digits) (digits.dropWhile (· = 0)).length (e - fraction.length)

/-- The decimal digits at the front of a text, and what follows them. -/
def spanDigits (cs : List Char) : List Nat × List Char :=
  ((cs.takeWhile isDecimalDigit).filterMap digitValue?, cs.dropWhile isDecimalDigit)

/-- What follows the mark of an exponent: a sign and digits, to the end. -/
def exponent? (cs : List Char) : Option Int :=
  let (negative, body) := splitSign cs
  match digits? body with
  | none | some [] => none
  | some digits => some (signed negative (ofDigits digits))

/-- The value of a numeral without sign: digits with at most one point, at least one digit, and
perhaps an exponent. -/
def unsignedDecimal? (cs : List Char) : Option Float :=
  let (whole, rest) := spanDigits cs
  let (fraction, rest) :=
    match rest with
    | '.' :: rest => spanDigits rest
    | _ => ([], rest)
  if whole.isEmpty && fraction.isEmpty then none
  else
    match rest with
    | [] => some (ofPlaces whole fraction 0)
    | c :: rest =>
      if c = 'e' ∨ c = 'E' then (exponent? rest).map (ofPlaces whole fraction) else none

/-- The value of a numeral or of a name of an exceptional value, without sign. -/
def unsignedFloat? (cs : List Char) : Option Float :=
  let name := String.ofList (cs.map Char.toLower)
  if name = "inf" ∨ name = "infinity" then some infinity
  else if name = "nan" then some notANumber
  else unsignedDecimal? cs

/-- The floating-point number that host text denotes. -/
def readFloat (text : String) : Except NumeralError Float :=
  match dropUnderscores false (trimMargins text.toList) with
  | none => .error (.notDecimal text)
  | some cs =>
    let (negative, body) := splitSign cs
    match unsignedFloat? body with
    | none => .error (.notDecimal text)
    | some x => .ok (if negative then -x else x)

end CommandBatch.Decimal
