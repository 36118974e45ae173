import CommandBatch.Fault
import CommandBatch.OrderedMap

/-!
# Types of tokens

A type of arguments is given by three functions: one tells whether a character begins a token, one
whether a character ends it, and one turns the finished token into a value. The first two share a
small record that follows the token from its first character to its last; a fresh one is handed out
for every attempt. All three may break off with a fault, since hosts add types of their own.
-/

namespace CommandBatch

/-- What a type notes about the token being read. -/
structure Scratch where
  /-- The quote the token began with. -/
  quote : Option Char := none
  /-- The next character stands for itself. -/
  escape : Bool := false
  /-- The brackets still open. -/
  depth : Int := 0
  /-- What a host's type keeps for itself. -/
  data : OrderedMap Datum := {}

/-- What a type makes of a token: a value, or bare data, which is a mistake of the type. -/
inductive Reading where
  | value (v : Value)
  | data (d : Datum)

/-- The three functions of a type. -/
structure Lexis where
  begins : Char → Scratch → Except Fault (Bool × Scratch)
  ends : Char → Scratch → Except Fault (Bool × Scratch)
  parse : String → Except Fault Reading

/-- A type of arguments. -/
structure TokenType where
  name : String
  lexis : Lexis
  /-- Types with a lower priority are tried first, those without one last. -/
  priority : Option Int := none

namespace Lexis

/-- The functions of a type whose tokens are told by their characters alone. -/
def ofClasses (begins ends : Char → Bool) (parse : String → Except Fault Reading) : Lexis where
  begins c s := .ok (begins c, s)
  ends c s := .ok (ends c, s)
  parse := parse

/-- The functions never break off between the first character of a token and its last. -/
def Steady (l : Lexis) : Prop :=
  (∀ c s, ∃ r, l.begins c s = .ok r) ∧ ∀ c s, ∃ r, l.ends c s = .ok r

/-- The functions may break off with this fault between the first character of a token and its
last. -/
def Raises (l : Lexis) (f : Fault) : Prop :=
  (∃ c s, l.begins c s = .error f) ∨ ∃ c s, l.ends c s = .error f

theorem Steady.not_raises {l : Lexis} (h : l.Steady) {f : Fault} : ¬l.Raises f := by
  rintro (⟨c, s, hf⟩ | ⟨c, s, hf⟩)
  · obtain ⟨r, hr⟩ := h.1 c s
    rw [hr] at hf
    cases hf
  · obtain ⟨r, hr⟩ := h.2 c s
    rw [hr] at hf
    cases hf

theorem ofClasses_steady (begins ends : Char → Bool) (parse : String → Except Fault Reading) :
    (ofClasses begins ends parse).Steady :=
  ⟨fun _ _ => ⟨_, rfl⟩, fun _ _ => ⟨_, rfl⟩⟩

end Lexis

end CommandBatch
