import CommandBatch.Tensor.Basic
import CommandBatch.Decimal.Integer

/-!
# Sums and products of arrays

The sum of the entries is taken pairwise, which bounds the growth of rounding errors: short runs
are added up in eight interleaved strands, long ones are halved. The product sums over the last
axis of the left operand and the last but one (or only) axis of the right.
-/

namespace CommandBatch.Tensor

/-- The longest run of entries that is added up without halving it. -/
def runLimit : Nat := 128

/-- Adds two strands entry by entry. -/
def addStrands (xs ys : List Float) : List Float :=
  List.zipWith (· + ·) xs ys

/-- The sum of a run of at least eight entries: eight strands, combined in pairs, and the rest one
by one. -/
def sumRun (xs : List Float) : Float :=
  let rounds := xs.length / 8
  let strands := (pieces 8 rounds xs).drop 1 |>.foldl addStrands (xs.take 8)
  let total :=
    match strands with
    | [a, b, c, d, e, f, g, h] => ((a + b) + (c + d)) + ((e + f) + (g + h))
    | _ => 0.0
  (xs.drop (8 * rounds)).foldl (· + ·) total

/-- The pairwise sum of the entries, halving at most `depth` times. -/
def sumHalving : Nat → List Float → Float
  | depth, xs =>
    if xs.length < 8 then xs.foldl (· + ·) 0.0
    else if xs.length ≤ runLimit then sumRun xs
    else
      match depth with
      | 0 => sumRun xs
      | depth + 1 =>
        let half := xs.length / 2
        let cut := half - half % 8
        sumHalving depth (xs.take cut) + sumHalving depth (xs.drop cut)

/-- The sum of all entries. Every halving shortens the list, so its length bounds their number. -/
def sum (t : Tensor) : Float :=
  sumHalving t.size t.entries

/-- Two arrays whose extents do not fit: the axis of each and its extent. -/
structure Misaligned where
  left : List Nat
  right : List Nat
  leftAxis : Nat
  rightAxis : Nat
  deriving DecidableEq, Repr

/-- A shape between parentheses; a single extent has a comma behind it. -/
def shapeText (shape : List Nat) (separator : String) : String :=
  let extents := shape.map fun (n : Nat) => Decimal.wholeText n
  match extents with
  | [n] => "(" ++ n ++ ",)"
  | _ => "(" ++ separator.intercalate extents ++ ")"

/-- The extent of an axis. -/
def extent (shape : List Nat) (axis : Nat) : Nat :=
  shape.getD axis 1

/-- The wording of a misfit. -/
def Misaligned.message (m : Misaligned) : String :=
  let axisText := fun (shape : List Nat) (axis : Nat) =>
    s!"{Decimal.wholeText (extent shape axis)} (dim {Decimal.wholeText axis})"
  "shapes " ++ shapeText m.left "," ++ " and " ++ shapeText m.right "," ++ " not aligned: " ++
    axisText m.left m.leftAxis ++ " != " ++ axisText m.right m.rightAxis

/-- Why two arrays have no product. -/
inductive Misfit where
  | misaligned (m : Misaligned)
  /-- The product would have too many axes. -/
  | tooManyAxes
  deriving DecidableEq, Repr

/-- The wording of the reason. -/
def Misfit.message : Misfit → String
  | misaligned m => m.message
  | tooManyAxes => "dot: too many dimensions in result"

/-- The sum of the products of corresponding entries. -/
def inner (xs ys : List Float) : Float :=
  (List.zipWith (· * ·) xs ys).foldl (· + ·) 0.0

/-- The columns of a matrix of `rows` rows and `columns` columns. -/
def columns (rows columns : Nat) (entries : List Float) : List (List Float) :=
  (List.range columns).map fun c => (pieces columns rows entries).map fun row => row.getD c 0.0

/-- The entries of a product: every row of the left operand with every column of each matrix of
the right. -/
def productEntries (a b : Tensor) : List Float :=
  let length := extent a.shape (a.rank - 1)
  let width := if b.rank < 2 then 1 else extent b.shape (b.rank - 1)
  let rows := pieces length (a.size / length) a.entries
  let matrices := pieces (length * width) (b.size / (length * width)) b.entries
  rows.flatMap fun row =>
    matrices.flatMap fun matrix => (columns length width matrix).map (inner row)

/-- A multiple of each entry. A lone entry is the bare product; a list is added to zeros, which a
zero factor leaves as they are. -/
def scaled (factor : Float) : List Float → List Float
  | [x] => [x * factor]
  | xs => xs.map fun x => if factor == 0.0 then 0.0 else 0.0 + factor * x

/-- The product of two arrays. A single entry, in an array of one or two axes, scales the other
array if that has no more axes. -/
def product (a b : Tensor) : Except Misfit Tensor :=
  let leftAxis := a.rank - 1
  let rightAxis := b.rank - 2
  if extent a.shape leftAxis ≠ extent b.shape rightAxis then
    .error (.misaligned ⟨a.shape, b.shape, leftAxis, rightAxis⟩)
  else if a.rank + b.rank - 2 > axisLimit then .error .tooManyAxes
  else
    let shape := a.shape.dropLast ++ b.shape.take rightAxis ++ b.shape.drop (max 1 (b.rank - 1))
    let entries :=
      if a.rank ≤ 2 ∧ b.rank ≤ 2 ∧ a.size = 1 then scaled (a.entries.getD 0 0.0) b.entries
      else if a.rank ≤ 2 ∧ b.rank ≤ 2 ∧ b.size = 1 then scaled (b.entries.getD 0 0.0) a.entries
      else productEntries a b
    .ok ⟨shape, entries⟩

end CommandBatch.Tensor
