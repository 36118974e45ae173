import CommandBatch.Text.CaseTable

/-!
# Upper and lower case

The full mappings of the character standard: a letter may become a sequence of letters, and the
Greek capital sigma at the end of a word has a lower-case form of its own.
-/

namespace CommandBatch.Text

/-- The counterpart of a letter by the given tables; a letter in neither table is its own. -/
def mapCase (runs : List CaseRun) (sequences : List (Nat × List Nat)) (c : Char) : List Char :=
  match runs.find? (·.holds c.toNat) with
  | some run => [Char.ofNat (c.toNat + run.shift).toNat]
  | none =>
    match sequences.lookup c.toNat with
    | some codes => codes.map Char.ofNat
    | none => [c]

/-- The upper-case form of one letter. -/
def upperChar (c : Char) : List Char :=
  mapCase upperRuns upperSequences c

/-- The upper-case form of a text, letter by letter. -/
def upperList (cs : List Char) : List Char :=
  cs.flatMap upperChar

/-- The upper-case form of a text. -/
def upper (s : String) : String :=
  .ofList (upperList s.toList)

@[simp] theorem upperList_nil : upperList [] = [] := rfl

@[simp] theorem upperList_cons (c : Char) (cs : List Char) :
    upperList (c :: cs) = upperChar c ++ upperList cs := rfl

@[simp] theorem upperList_append (xs ys : List Char) :
    upperList (xs ++ ys) = upperList xs ++ upperList ys := by
  simp [upperList]

@[simp] theorem toList_upper (s : String) : (upper s).toList = upperList s.toList := by
  simp [upper]

/-- A letter with a case. -/
def isCased (c : Char) : Bool :=
  casedRanges.contains c.toNat

/-- A mark that does not end a word for the rule of the final sigma. -/
def isCaseIgnorable (c : Char) : Bool :=
  caseIgnorableRanges.contains c.toNat

/-- The first letter that counts among these, looking past the ignorable marks, has a case. -/
def meetsCased (cs : List Char) : Bool :=
  ((cs.dropWhile isCaseIgnorable).head?.map isCased).getD false

/-- The lower-case form of a letter that stands after `before` (nearest first) and in front of
`after`. A capital sigma that ends a word becomes a final sigma. -/
def lowerChar (before : List Char) (c : Char) (after : List Char) : List Char :=
  if c = 'Σ' then
    if meetsCased before && !meetsCased after then ['ς'] else ['σ']
  else
    mapCase lowerRuns lowerSequences c

/-- The lower-case form of a text that stands after `before` (nearest first). -/
def lowerFrom (before : List Char) : List Char → List Char
  | [] => []
  | c :: cs => lowerChar before c cs ++ lowerFrom (c :: before) cs

/-- The lower-case form of a text. -/
def lowerList (cs : List Char) : List Char :=
  lowerFrom [] cs

/-- The lower-case form of a text. -/
def lower (s : String) : String :=
  .ofList (lowerList s.toList)

end CommandBatch.Text
