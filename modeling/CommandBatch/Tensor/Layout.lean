import CommandBatch.Tensor.Algebra
import CommandBatch.Decimal.FloatText

/-!
# The text of an array

All entries of an array are written to one width, positionally or with exponents as their range
asks. Rows break where the line is full, and an array with many entries shows only the edges of
its axes.
-/

namespace CommandBatch.Tensor

open Decimal

/-- The decisions of the layout. -/
structure LayoutFormat where
  /-- The most digits behind the point. -/
  precision : Nat
  /-- The length of a line. -/
  width : Nat
  /-- Arrays with more entries than this are shown in part. -/
  threshold : Nat
  /-- How many items at each end of an axis are shown then. -/
  edge : Nat

/-- Eight digits behind the point, lines of 75 characters, and three items at each end of an axis
of an array with more than a thousand entries. -/
def LayoutFormat.standard : LayoutFormat := ⟨8, 75, 1000, 3⟩

/-- The text of a finite number in two or three parts, before they are filled up to one width. -/
structure EntryParts where
  /-- The sign and the digits in front of the point. -/
  whole : List Char
  /-- The digits behind the point, without zeros at the end. -/
  fraction : List Char
  /-- The exponent, if there is one. -/
  exponent : List Char

/-- Digits without the zeros at their end. -/
def dropZeros (ds : List Char) : List Char :=
  (ds.reverse.dropWhile (· == '0')).reverse

/-- A minus sign in front of the text of a negative number. -/
def withSign (negative : Bool) (cs : List Char) : List Char :=
  if negative then '-' :: cs else cs

/-- The digits of `s` with its point: what stands in front of it and behind it. -/
def splitPoint (s : Scaled) : List Char × List Char :=
  let digits := Nat.toDigits 10 s.digits
  if s.exponent ≥ 0 then (digits ++ List.replicate s.exponent.toNat '0', [])
  else
    let places := (-s.exponent).toNat
    let filled := List.replicate (places + 1 - digits.length) '0' ++ digits
    (filled.take (filled.length - places), dropZeros (filled.drop (filled.length - places)))

/-- A number written positionally: its shortest decimal, or that of `precision` places nearest to
it if the shortest has more. -/
def positional (precision : Nat) (negative : Bool) (m : Nat) (q : Int) : EntryParts :=
  if m = 0 then ⟨withSign negative ['0'], [], []⟩
  else
    let (whole, fraction) := splitPoint (shortest m q)
    let (whole, fraction) :=
      if fraction.length ≤ precision then (whole, fraction)
      else splitPoint (roundTo m q (-precision))
    ⟨withSign negative whole, fraction, []⟩

/-- A number written with one digit in front of the point and an exponent. -/
def scientific (precision : Nat) (negative : Bool) (m : Nat) (q : Int) : EntryParts :=
  if m = 0 then ⟨withSign negative ['0'], [], exponentText 2 0⟩
  else
    let (ds, e) := (shortest m q).significant
    let (ds, e) :=
      if ds.length ≤ precision + 1 then (ds, e)
      else (roundTo m q (leadingExponent m q - precision)).significant
    ⟨withSign negative (ds.take 1), ds.drop 1, exponentText 2 (e + (ds.length - 1 : Nat))⟩

/-- The widths that all entries of an array are filled up to. -/
structure EntryWidths where
  /-- Entries have exponents. -/
  exponents : Bool
  /-- The places in front of the point. -/
  left : Nat
  /-- The places behind the point, the exponent included. -/
  right : Nat
  /-- The digits behind the point. -/
  fraction : Nat
  /-- The digits of an exponent. -/
  exponent : Nat

/-- The length of the longest of these texts. -/
def longest (texts : List (List Char)) : Nat :=
  (texts.map List.length).foldl max 0

/-- An entry in parts, if it is finite. -/
def entryParts? (precision : Nat) (exponents : Bool) (x : Float) : Option EntryParts :=
  match floatParts x with
  | .finite negative m q =>
    some <|
      if exponents then scientific precision negative m q else positional precision negative m q
  | _ => none

/-- Whether the range of the entries asks for exponents: one of them is great, one is small, or
they lie far apart. -/
def asksForExponents (xs : List Float) : Bool :=
  match (xs.filter fun x => x.isFinite && !(x == 0.0)).map Float.abs with
  | [] => false
  | y :: ys =>
    let most := ys.foldl (fun a b => if a < b then b else a) y
    let least := ys.foldl (fun a b => if b < a then b else a) y
    most ≥ 1e8 || least < 0.0001 || most / least > 1000.0

/-- The widths for the entries of an array. -/
def entryWidths (precision : Nat) (xs : List Float) : EntryWidths :=
  let exponents := asksForExponents xs
  let parts := xs.filterMap (entryParts? precision exponents)
  let left := longest (parts.map (·.whole))
  let fraction := longest (parts.map (·.fraction))
  let exponent := longest (parts.map (·.exponent)) - 2
  let right := if exponents then exponent + 2 + fraction else fraction
  let reserve :=
    if xs.any fun x => !x.isFinite then
      let negative := xs.any fun x => x.isInf && x < 0.0
      (if negative then 4 else 3) - (right + 1)
    else 0
  ⟨exponents, max left reserve, right, fraction, exponent⟩

/-- Blanks in front of a text up to a width. -/
def padLeft (width : Nat) (cs : List Char) : List Char :=
  List.replicate (width - cs.length) ' ' ++ cs

/-- The text of an entry, filled up to the widths. -/
def entryText (precision : Nat) (w : EntryWidths) (x : Float) : List Char :=
  match entryParts? precision w.exponents x with
  | none => padLeft (w.left + w.right + 1) (floatText x).toList
  | some p =>
    let fill := List.replicate (w.fraction - p.fraction.length)
    padLeft w.left p.whole ++ '.' :: p.fraction ++
      if w.exponents then
        fill '0' ++ p.exponent.take 2 ++
          List.replicate (w.exponent + 2 - p.exponent.length) '0' ++ p.exponent.drop 2
      else fill ' '

/-- Items with a mark in place of those left out. -/
def abridge {α : Type} (edge : Nat) (inPart : Bool) (xs : List α) : List (Option α) :=
  if inPart && 2 * edge < xs.length then
    (xs.take edge).map some ++ none :: (xs.drop (xs.length - edge)).map some
  else xs.map some

/-- The entries that are shown. -/
def shownEntries (edge : Nat) : List Nat → List Float → List Float
  | [], xs => xs
  | n :: shape, xs =>
    (abridge edge true (pieces (shape.foldl (· * ·) 1) n xs)).flatMap fun piece =>
      match piece with
      | some piece => shownEntries edge shape piece
      | none => []

/-- Adds a word to the lines of a row, on a new line if it does not fit. The lines are the text
that is done and the line being filled. -/
def addWord (indent width : Nat) (lines : List Char × List Char) (word : List Char) :
    List Char × List Char :=
  let (done, line) := lines
  if line.length + word.length > width ∧ line.length > indent then
    (done ++ (line.reverse.dropWhile (· == ' ')).reverse ++ ['\n'],
      List.replicate indent ' ' ++ word)
  else (done, line ++ word)

/-- The words of a row, broken into lines. -/
def rowText (indent width : Nat) (separator : List Char) (words : List (List Char)) :
    List Char :=
  let rec fill : List (List Char) → List Char × List Char → List Char × List Char
    | [], lines => lines
    | [word], lines => addWord indent width lines word
    | word :: words, lines =>
      let (done, line) := addWord indent width lines word
      fill words (done, line ++ separator)
  let (done, line) := fill words ([], List.replicate indent ' ')
  (done ++ line).drop indent

/-- The text of the part of an array under some of its axes. -/
def axesText (format : LayoutFormat) (separator : List Char) (inPart : Bool)
    (entry : Float → List Char) (indent width : Nat) : List Nat → List Float → List Char
  | [], xs => xs.flatMap entry
  | [n], xs =>
    let words := (abridge format.edge inPart (pieces 1 n xs)).map fun piece =>
      match piece with
      | some piece => piece.flatMap entry
      | none => ['.', '.', '.']
    '[' :: rowText indent (width - 1) separator words ++ [']']
  | n :: shape, xs =>
    let parts := (abridge format.edge inPart (pieces (shape.foldl (· * ·) 1) n xs)).map fun piece =>
      match piece with
      | some piece => axesText format separator inPart entry (indent + 1) (width - 1) shape piece
      | none => ['.', '.', '.']
    let gap := (separator.reverse.dropWhile (· == ' ')).reverse ++
      List.replicate shape.length '\n' ++ List.replicate indent ' '
    '[' :: gap.intercalate parts ++ [']']

/-- The text of an array with the given separator, behind a heading of the given length, on lines
of the given length. -/
def render (t : Tensor) (separator : String) (heading width : Nat) : String :=
  let format := LayoutFormat.standard
  if t.size = 0 then "[]"
  else
    let inPart := t.size > format.threshold
    let shown := if inPart then shownEntries format.edge t.shape t.entries else t.entries
    let widths := entryWidths format.precision shown
    .ofList (axesText format separator.toList inPart (entryText format.precision widths)
      (heading + 1) width t.shape t.entries)

/-- The plain text of an array. -/
def text (t : Tensor) : String :=
  t.render " " 0 LayoutFormat.standard.width

/-- The text of an array between a name and a closing parenthesis, with its shape where the array
is shown in part. -/
def quoted (t : Tensor) : String :=
  let format := LayoutFormat.standard
  let heading := "array("
  let body := heading ++ t.render ", " heading.length (format.width - 1)
  if t.size > format.threshold then
    let body := body ++ ","
    let extra := "shape=" ++ shapeText t.shape ", " ++ ")"
    let lastLine := (body.toList.reverse.takeWhile (· ≠ '\n')).length
    if lastLine + extra.length + 1 > format.width then
      body ++ "\n" ++ .ofList (List.replicate heading.length ' ') ++ extra
    else body ++ " " ++ extra
  else body ++ ")"

end CommandBatch.Tensor
