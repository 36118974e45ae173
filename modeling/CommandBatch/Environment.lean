import CommandBatch.OrderedMap
import CommandBatch.Token.Symbol

/-!
# Variables

The environment holds the values of variables. The name of a variable is the same in any case and
with or without the sigil in front.
-/

namespace CommandBatch

open Text

/-- The key that a name stands for: upper case, with the sigil in front. -/
def normalizeName (name : String) : String :=
  let key := upper name
  if key.toList.head? = some Token.sigil then key else String.ofList (Token.sigil :: key.toList)

/-- The values of variables, in the order in which the variables were first set. -/
structure Environment where
  values : OrderedMap Value := {}

namespace Environment

/-- The value of a variable. -/
def get? (env : Environment) (name : String) : Option Value :=
  env.values.get? (normalizeName name)

/-- The variable has a value. -/
def has (env : Environment) (name : String) : Bool := (env.get? name).isSome

/-- The value of a variable, or the reason why there is none. -/
def get (env : Environment) (name : String) : Except Reason Value :=
  match env.get? name with
  | some v => .ok v
  | none => .error (.undefined name)

/-- The environment with a variable set. -/
def set (env : Environment) (name : String) (value : Value) : Environment :=
  ⟨env.values.set (normalizeName name) value⟩

/-- The environment without a variable, which has to be there. -/
def delete (env : Environment) (name : String) : Except Reason Environment :=
  if env.has name then .ok ⟨env.values.erase (normalizeName name)⟩
  else .error (.cannotDelete name)

/-- The value that a reference leads to. -/
def resolve (env : Environment) (reference : Value) : Except Reason Value :=
  match reference.datum.toText with
  | .error _ => .error .nameless
  | .ok name =>
    match env.get? name with
    | some v => .ok v
    | none => .error (.unresolved reference.shown)

theorem resolve_eq_ok_iff {env : Environment} {reference v : Value} :
    env.resolve reference = .ok v ↔
      reference.datum.isWritable = true ∧ env.get? reference.datum.plain = some v := by
  unfold resolve Datum.toText
  cases reference.datum.isWritable <;> cases hget : env.get? reference.datum.plain <;> simp [hget]

theorem resolve_eq_error_iff {env : Environment} {reference : Value} {r : Reason} :
    env.resolve reference = .error r ↔
      reference.datum.isWritable = false ∧ r = .nameless ∨
      reference.datum.isWritable = true ∧ env.get? reference.datum.plain = none ∧
        r = .unresolved reference.shown := by
  unfold resolve Datum.toText
  cases reference.datum.isWritable <;> cases hget : env.get? reference.datum.plain <;>
    simp [hget, eq_comm]

/-- The keys with summaries of their values, however long the numbers in these are. -/
def snapshot (env : Environment) : List (String × String) :=
  (env.values.map Value.summary).items

/-- The value of every variable can be written. -/
def isWritable (env : Environment) : Bool :=
  env.values.values.all (·.datum.isWritable)

/-- The keys with summaries of their values, as far as all of these can be written. -/
def toSnapshot (env : Environment) : Except ConversionError (List (String × String)) :=
  if env.isWritable then .ok env.snapshot else .error .unwritable

end Environment

end CommandBatch
