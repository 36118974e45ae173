import CommandBatch.Text.Blank
import CommandBatch.Text.Digit
import CommandBatch.Text.Quoted

/-!
# Whole numbers in texts

Reading a whole number from decimal digits of any script, with a limit on the number of digits.
Two readers stand here: one for bare digits, one for the freer form that host data may have
(margins, a sign, single underscores between digits).
-/

namespace CommandBatch.Decimal

open Text

/-- Why a text is not a numeral. -/
inductive NumeralError where
  /-- The text is not a whole number. -/
  | notWhole (text : String)
  /-- The whole number has too many digits. -/
  | tooLong (digits : Nat)
  /-- The text is not a decimal number. -/
  | notDecimal (text : String)
  deriving DecidableEq, Repr

/-- The most digits that a whole number may be written with. -/
def digitLimit : Nat := 4300

/-- The longest quotation of a text that is not a whole number. -/
def quotationLimit : Nat := 200

/-- The wording of an error. -/
def NumeralError.message : NumeralError → String
  | .notWhole text =>
    let shown := String.ofList ((quotedList text.toList).take quotationLimit)
    s!"invalid literal for int() with base 10: {shown}"
  | .tooLong digits =>
    let limit := String.ofList (Nat.toDigits 10 digitLimit)
    let length := String.ofList (Nat.toDigits 10 digits)
    s!"Exceeds the limit ({limit} digits) for integer string conversion: " ++
      s!"value has {length} digits; use sys.set_int_max_str_digits() to increase the limit"
  | .notDecimal text => s!"could not convert string to float: {quoted text}"

/-- The number that a list of digits writes, most significant digit first. -/
def ofDigits (digits : List Nat) : Nat :=
  digits.foldl (fun n d => 10 * n + d) 0

@[simp] theorem ofDigits_nil : ofDigits [] = 0 := rfl

theorem ofDigits_concat (digits : List Nat) (d : Nat) :
    ofDigits (digits ++ [d]) = 10 * ofDigits digits + d := by
  simp [ofDigits]

/-- The values of the characters, if all of them are decimal digits. -/
def digits? (cs : List Char) : Option (List Nat) :=
  cs.mapM digitValue?

/-- A minus sign in front of a text, and what follows it. -/
def splitMinus : List Char → Bool × List Char
  | '-' :: cs => (true, cs)
  | cs => (false, cs)

/-- A number with its sign. -/
def signed (negative : Bool) (n : Nat) : Int :=
  if negative then -n else n

/-- Refuses digits beyond the limit. -/
def withinLimit (digits : List Nat) : Except NumeralError (List Nat) :=
  if digits.length ≤ digitLimit then .ok digits else .error (.tooLong digits.length)

/-- A blank that a numeral in host data may have around it: all but the information separators. -/
def isMargin (c : Char) : Bool :=
  isBlank c && !(28 ≤ c.toNat && c.toNat ≤ 31)

/-- The text without the blanks that a numeral may have around it. -/
def trimMargins (cs : List Char) : List Char :=
  ((cs.dropWhile isMargin).reverse.dropWhile isMargin).reverse

/-- A sign in front of a text, and what follows it. -/
def splitSign : List Char → Bool × List Char
  | '-' :: cs => (true, cs)
  | '+' :: cs => (false, cs)
  | cs => (false, cs)

/-- The text without its underscores, if each of them stands between two digits. `previous` tells
whether a digit stands in front. -/
def dropUnderscores (previous : Bool) : List Char → Option (List Char)
  | [] => some []
  | '_' :: c :: cs =>
    if previous && isDecimalDigit c then (dropUnderscores true cs).map (c :: ·) else none
  | c :: cs =>
    if c = '_' then none else (dropUnderscores (isDecimalDigit c) cs).map (c :: ·)

/-- The whole number that host text denotes. -/
def readWhole (text : String) : Except NumeralError Int :=
  let (negative, body) := splitSign (trimMargins text.toList)
  match (dropUnderscores false body).bind digits? with
  | none | some [] => .error (.notWhole text)
  | some digits => do
    let digits ← withinLimit digits
    return signed negative (ofDigits digits)

/-- The decimal text of a whole number. -/
def wholeText (i : Int) : String :=
  match i with
  | .ofNat n => .ofList (Nat.toDigits 10 n)
  | .negSucc n => .ofList ('-' :: Nat.toDigits 10 (n + 1))

/-- The whole number has no more digits than the limit, so that it may be written. -/
def isWritable (i : Int) : Bool := (Nat.toDigits 10 i.natAbs).length ≤ digitLimit

/-- The upper-case hexadecimal text of a whole number. -/
def hexText (i : Int) : String :=
  let digits := (Nat.toDigits 16 i.natAbs).map fun c => if 'a' ≤ c ∧ c ≤ 'f' then c.toUpper else c
  .ofList (if i < 0 then '-' :: digits else digits)

end CommandBatch.Decimal
