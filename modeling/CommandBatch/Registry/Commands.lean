import CommandBatch.OrderedMap
import CommandBatch.Command.Signature

/-!
# The registry of commands

Commands are found by their names in any case. A later registration of a name takes the place of
the earlier one.
-/

namespace CommandBatch

open Text

/-- The commands by their names. -/
structure CommandRegistry (H : Type) where
  commands : OrderedMap (Command H) := {}

namespace CommandRegistry

variable {H : Type}

/-- Registers a command. -/
def register (r : CommandRegistry H) (c : Command H) : CommandRegistry H :=
  ⟨r.commands.set (upper c.signature.name) c⟩

/-- The command of a name. -/
def find? (r : CommandRegistry H) (name : String) : Option (Command H) :=
  r.commands.get? (upper name)

/-- A registration changes what is found under the name of its command alone. -/
theorem find?_register (r : CommandRegistry H) (c : Command H) (name : String) :
    (r.register c).find? name =
      if upper name = upper c.signature.name then some c else r.find? name :=
  OrderedMap.get?_set ..

/-- Of the commands that are registered one after the other, the last of a name is found. -/
theorem find?_foldl_register_eq (cs : List (Command H)) (r : CommandRegistry H) (name : String) :
    (cs.foldl register r).find? name =
      (cs.reverse.find? fun c => upper name = upper c.signature.name).or (r.find? name) := by
  induction cs generalizing r with
  | nil => rfl
  | cons c cs ih =>
    rw [List.foldl_cons, ih, find?_register, List.reverse_cons, List.find?_append, Option.or_assoc]
    by_cases hname : upper name = upper c.signature.name <;> simp [hname]

/-- A command of this name is registered. -/
def has (r : CommandRegistry H) (name : String) : Bool := (r.find? name).isSome

/-- The command of a name, which has to be there. -/
def get (r : CommandRegistry H) (name : String) : Except ExtensionError (Command H) :=
  match r.find? name with
  | some c => .ok c
  | none => .error (.unknownCommand name)

/-- The signatures of the commands by their names. -/
def signatures (r : CommandRegistry H) : OrderedMap Signature :=
  r.commands.map (·.signature)

/-- The signature of a command is found where the command is. -/
theorem get?_signatures (r : CommandRegistry H) (name : String) :
    r.signatures.get? (upper name) = (r.find? name).map (·.signature) :=
  OrderedMap.get?_map ..

/-- The names of the commands that appear in lists. -/
def listed (r : CommandRegistry H) : List String :=
  (r.signatures.items.filter (·.2.listed)).map (·.1)

/-- The number of commands. -/
def size (r : CommandRegistry H) : Nat := r.commands.items.length

end CommandRegistry

end CommandBatch
