/-!
# Arrays of numbers

A tensor has a shape, a list of extents, and its entries in row-major order. A tensor is read off
a nested group of numbers, all of whose sibling groups have one shape.
-/

namespace CommandBatch

/-- A rectangular array of numbers. -/
structure Tensor where
  /-- The extent of each axis, outermost first. -/
  shape : List Nat
  /-- The entries in row-major order. -/
  entries : List Float
  deriving DecidableEq

/-- A number, or a group of such things. -/
inductive Nested where
  | number (x : Float)
  | group (items : List Nested)

/-- The shape that all of these shapes agree on, under a new outermost axis. -/
def stackShapes : List (Option (List Nat)) → Option (List Nat)
  | [] => some [0]
  | none :: _ => none
  | some s :: rest => if rest.all (· = some s) then some ((rest.length + 1) :: s) else none

namespace Nested

mutual
/-- The common shape of a nested group, or nothing where siblings differ. -/
def shape? : Nested → Option (List Nat)
  | .number _ => some []
  | .group items => stackShapes (shapes items)

/-- The shape of each item. -/
def shapes : List Nested → List (Option (List Nat))
  | [] => []
  | item :: items => shape? item :: shapes items
end

mutual
/-- The numbers of a nested group, left to right. -/
def numbers : Nested → List Float
  | .number x => [x]
  | .group items => numbersAll items

/-- The numbers of the items, left to right. -/
def numbersAll : List Nested → List Float
  | [] => []
  | item :: items => numbers item ++ numbersAll items
end

end Nested

namespace Tensor

/-- The most axes that a tensor may have. -/
def axisLimit : Nat := 64

/-- The tensor that a nested group writes, if it is rectangular and not too deep. -/
def ofNested? (n : Nested) : Option Tensor :=
  n.shape?.bind fun shape =>
    if shape.length ≤ axisLimit then some ⟨shape, n.numbers⟩ else none

/-- The number of entries. -/
def size (t : Tensor) : Nat := t.entries.length

/-- The number of axes. -/
def rank (t : Tensor) : Nat := t.shape.length

/-- A tensor with one axis. -/
def vector (xs : List Float) : Tensor := ⟨[xs.length], xs⟩

end Tensor

/-- Consecutive pieces of the given length, the given number of them. -/
def pieces {α : Type} (length : Nat) : Nat → List α → List (List α)
  | 0, _ => []
  | n + 1, xs => xs.take length :: pieces length n (xs.drop length)

end CommandBatch
