/-!
# Pieces of a text

The pieces of a text between the occurrences of a mark. Nothing but the marks is lost.
-/

namespace CommandBatch.Text

/-- The pieces between the marks; there is one more of them than of the marks. -/
def piecesAt (mark : Char) : List Char → List (List Char)
  | [] => [[]]
  | c :: cs =>
    if c = mark then [] :: piecesAt mark cs
    else
      match piecesAt mark cs with
      | piece :: pieces => (c :: piece) :: pieces
      | [] => [[c]]

@[simp] theorem piecesAt_nil (mark : Char) : piecesAt mark [] = [[]] := rfl

theorem piecesAt_ne_nil (mark : Char) (cs : List Char) : piecesAt mark cs ≠ [] := by
  cases cs with
  | nil => simp
  | cons c cs =>
    rw [piecesAt]
    split
    · simp
    · split <;> simp

/-- The lines of an input that ends each of them with a line feed. A last line without one counts
if it is not empty. -/
def inputLines (s : String) : List String :=
  let pieces := piecesAt '\n' s.toList
  let whole := if pieces.getLast? = some [] then pieces.dropLast else pieces
  whole.map .ofList

end CommandBatch.Text
