import CommandBatch.Token.Number
import CommandBatch.Token.Quotation

/-!
# The types that every engine has
-/

namespace CommandBatch.Token

/-- The types that every engine has, in the order in which they are tried. -/
def defaults : List TokenType :=
  [number, bool, symbol, string, reference]

theorem defaults_steady : ∀ type ∈ defaults, type.lexis.Steady := by
  have hstring : string.lexis.Steady := ⟨fun _ _ => ⟨_, rfl⟩, fun _ _ => ⟨_, rfl⟩⟩
  simp only [defaults, List.forall_mem_cons]
  exact ⟨Lexis.ofClasses_steady .., Lexis.ofClasses_steady .., Lexis.ofClasses_steady .., hstring,
    Lexis.ofClasses_steady .., by simp⟩

end CommandBatch.Token
