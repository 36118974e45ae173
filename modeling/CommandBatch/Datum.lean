import CommandBatch.Tensor.Layout

/-!
# Plain data

What a value of the command language, a host function's answer or a declaration's field may be.
A datum has two texts: one for output, and one for messages, in which texts are quoted. Neither can
be had of a datum that holds a whole number with more digits than the limit. A datum can be taken for
a truth value, a whole number or a floating-point number, and some data refuse that.
-/

namespace CommandBatch

open Decimal

/-- A piece of plain data. -/
inductive Datum where
  | nothing
  | bool (b : Bool)
  | whole (i : Int)
  | float (x : Float)
  | text (s : String)
  | list (items : List Datum)
  | tensor (t : Tensor)

/-- Why a datum cannot be taken for a text, a number or a truth value. -/
inductive ConversionError where
  /-- A whole number has too many digits to be written. -/
  | unwritable
  /-- A whole number lies beyond the positions in a text. -/
  | beyondIndex
  /-- A text is not a numeral. -/
  | numeral (e : NumeralError)
  /-- A whole number lies beyond the floating-point range. -/
  | beyondFloat
  /-- No number has no whole part. -/
  | wholeOfNotANumber
  /-- Infinity has no whole part. -/
  | wholeOfInfinity
  /-- Data of this kind are no whole numbers. -/
  | notWhole (kind : String)
  /-- Data of this kind are no floating-point numbers. -/
  | notFloat (kind : String)
  /-- Only an array with a single entry is a number. -/
  | manyEntries
  /-- Only an array with a single entry is a truth value. -/
  | ambiguousTruth
  deriving DecidableEq, Repr

namespace ConversionError

/-- The name of the kind of the error. -/
def kind : ConversionError → String
  | .unwritable | .numeral _ | .wholeOfNotANumber | .ambiguousTruth => "ValueError"
  | .beyondIndex | .beyondFloat | .wholeOfInfinity => "OverflowError"
  | .notWhole _ | .notFloat _ | .manyEntries => "TypeError"

/-- The wording of the error. -/
def message : ConversionError → String
  | .unwritable =>
    let limit := String.ofList (Nat.toDigits 10 digitLimit)
    s!"Exceeds the limit ({limit} digits) for integer string conversion; " ++
      "use sys.set_int_max_str_digits() to increase the limit"
  | .beyondIndex => "cannot fit 'int' into an index-sized integer"
  | .numeral e => e.message
  | .beyondFloat => "int too large to convert to float"
  | .wholeOfNotANumber => "cannot convert float NaN to integer"
  | .wholeOfInfinity => "cannot convert float infinity to integer"
  | .notWhole kind =>
    s!"int() argument must be a string, a bytes-like object or a real number, not '{kind}'"
  | .notFloat kind => s!"float() argument must be a string or a real number, not '{kind}'"
  | .manyEntries => "only length-1 arrays can be converted to Python scalars"
  | .ambiguousTruth =>
    "The truth value of an array with more than one element is ambiguous. Use a.any() or a.all()"

end ConversionError

namespace Datum

/-- The name of the kind of a datum, as messages give it. -/
def kind : Datum → String
  | .nothing => "NoneType"
  | .bool _ => "bool"
  | .whole _ => "int"
  | .float _ => "float"
  | .text _ => "str"
  | .list _ => "list"
  | .tensor _ => "ndarray"

mutual
/-- No whole number in the datum has too many digits to be written. -/
def isWritable : Datum → Bool
  | .whole i => Decimal.isWritable i
  | .list items => areWritable items
  | _ => true

/-- Every item of a list can be written. -/
def areWritable : List Datum → Bool
  | [] => true
  | item :: items => isWritable item && areWritable items
end

mutual
/-- The text of a datum in messages, however long its numbers are. -/
def quoted : Datum → String
  | .nothing => "None"
  | .bool b => if b then "True" else "False"
  | .whole i => wholeText i
  | .float x => floatText x
  | .text s => Text.quoted s
  | .list items => "[" ++ ", ".intercalate (quotedAll items) ++ "]"
  | .tensor t => t.quoted

/-- The texts of the items of a list. -/
def quotedAll : List Datum → List String
  | [] => []
  | item :: items => quoted item :: quotedAll items
end

/-- The text of a datum in output, however long its numbers are. -/
def plain : Datum → String
  | .text s => s
  | .tensor t => t.text
  | d => d.quoted

/-- A datum taken for its text in messages. -/
def toQuoted (d : Datum) : Except ConversionError String :=
  if d.isWritable then .ok d.quoted else .error .unwritable

/-- A datum taken for its text in output. -/
def toText (d : Datum) : Except ConversionError String :=
  if d.isWritable then .ok d.plain else .error .unwritable

theorem toText_eq_ok_iff {d : Datum} {text : String} :
    d.toText = .ok text ↔ d.isWritable = true ∧ d.plain = text := by
  unfold toText
  split <;> simp_all

theorem toText_eq_error_iff {d : Datum} {e : ConversionError} :
    d.toText = .error e ↔ d.isWritable = false ∧ e = .unwritable := by
  unfold toText
  split <;> simp [*, eq_comm]

/-- A datum taken for a truth value: nothing, zero and what is empty are false. -/
def truth : Datum → Except ConversionError Bool
  | .nothing => .ok false
  | .bool b => .ok b
  | .whole i => .ok (i ≠ 0)
  | .float x => .ok !(x == 0.0)
  | .text s => .ok (s ≠ "")
  | .list items => .ok !items.isEmpty
  | .tensor t =>
    match t.entries with
    | [x] => .ok !(x == 0.0)
    | _ => .error .ambiguousTruth

/-- The whole part of a floating-point number. -/
def wholePart (x : Float) : Except ConversionError Int :=
  match truncate? x with
  | some i => .ok i
  | none => .error (if x.isNaN then .wholeOfNotANumber else .wholeOfInfinity)

/-- A datum taken for a whole number. -/
def toWhole : Datum → Except ConversionError Int
  | .bool b => .ok (if b then 1 else 0)
  | .whole i => .ok i
  | .float x => wholePart x
  | .text s => (readWhole s).mapError .numeral
  | .tensor t =>
    match t.entries with
    | [x] => wholePart x
    | _ => .error .manyEntries
  | d => .error (.notWhole d.kind)

/-- A datum taken for a floating-point number. -/
def toFloat : Datum → Except ConversionError Float
  | .bool b => .ok (if b then 1.0 else 0.0)
  | .whole i =>
    match ofWhole? i with
    | some x => .ok x
    | none => .error .beyondFloat
  | .float x => .ok x
  | .text s => (readFloat s).mapError .numeral
  | .tensor t =>
    match t.entries with
    | [x] => .ok x
    | _ => .error .manyEntries
  | d => .error (.notFloat d.kind)

end Datum

end CommandBatch
