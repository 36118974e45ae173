import CommandBatch.Token.Basic
import CommandBatch.Tensor.Reader

/-!
# Arrays of numbers as arguments

An array stands between brackets, which may nest. It ends at the bracket that closes the first.
-/

namespace CommandBatch.Token

open Text

/-- The value of a token that should be an array. -/
def parseTensor (literal : String) : Value :=
  let text := strip literal
  match Tensor.read? text.toList with
  | some t => ⟨TypeName.tensor, .tensor t, none⟩
  | none => .refused text

/-- The brackets that are open behind a character. -/
def depthAfter (c : Char) (depth : Int) : Int :=
  if c = '[' then depth + 1 else if c = ']' then depth - 1 else depth

/-- The functions of arrays. -/
def tensorLexis : Lexis where
  begins c s := .ok (if c = '[' then (true, { s with depth := 1 }) else (false, s))
  ends c s :=
    let depth := depthAfter c s.depth
    .ok (depth == 0, { s with depth })
  parse literal := .ok (.value (parseTensor literal))

/-- Arrays between brackets. They are tried before the types that every engine has. -/
def tensor : TokenType where
  name := TypeName.tensor
  lexis := tensorLexis
  priority := some 0

end CommandBatch.Token
