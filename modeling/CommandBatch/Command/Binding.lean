import CommandBatch.Command.Signature
import CommandBatch.Environment

/-!
# Binding arguments

The arguments of a line are matched with the parameters of its command from left to right. A
reference is replaced by the value of its variable unless the parameter asks for references. The
first position that does not fit gives the reason why the line fails.
-/

namespace CommandBatch.Signature

/-- The argument that a parameter gets: the value of the variable where a reference is not asked
for. -/
def resolveFor (p : Parameter) (env : Environment) (arg : Value) : Except Reason Value :=
  if arg.isReference && !p.acceptsReference then env.resolve arg else .ok arg

/-- Binds the arguments from a position on, counted from one. -/
def bindFrom (s : Signature) (env : Environment) (given : Nat) :
    Nat → List Parameter → List Value → Except Reason (List Value)
  | _, [], [] => .ok []
  | _, [], _ :: _ => .error (.tooMany s.name s.most given)
  | _, p :: _, [] =>
    if p.optional then .ok [] else .error (.tooFew s.name s.least given)
  | position, p :: ps, arg :: args => do
    let v ← resolveFor p env arg
    if p.accepts v.type then
      return v :: (← bindFrom s env given (position + 1) ps args)
    else .error (.mismatch s.name position p.describe v.type)

/-- The arguments that the handler of a command gets. -/
def bind (s : Signature) (env : Environment) (args : List Value) : Except Reason (List Value) :=
  s.bindFrom env args.length 1 s.params args

end CommandBatch.Signature
