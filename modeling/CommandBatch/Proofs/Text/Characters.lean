/-!
# Statements about the characters of a text

There are finitely many characters, so that a statement about those of a text could be tried on all
of them.  It is decided by going through the text.
-/

namespace CommandBatch.Text

instance (priority := 2000) decidableForallMem (cs : List Char) (p : Char → Prop)
    [DecidablePred p] : Decidable (∀ c ∈ cs, p c) :=
  List.decidableBAll p cs

end CommandBatch.Text
