import CommandBatch.Fault

/-!
# The registry of hooks

Hooks wait for events of a run, step rules for every so many steps. The hooks of an event are
called by descending priority, equals in the order of their registration; step rules in the order
of their registration.
-/

namespace CommandBatch

/-- A step as step rules see it. -/
structure StepContext where
  step : Int
  line : Int
  command : String
  code : Int
  deriving DecidableEq, Repr

/-- What waits for an event. -/
structure Hook (H : Type) where
  /-- The number of hooks that were registered before. -/
  number : Nat
  event : Event
  priority : Int
  handler : H
  /-- The extension that the hook belongs to. -/
  owner : String

/-- What waits for every so many steps. -/
structure StepRule (H : Type) where
  /-- The number of rules that were registered before. -/
  number : Nat
  every : Int
  handler : H
  /-- The extension that the rule belongs to. -/
  owner : String
  name : String

/-- Hooks and step rules. The hooks of all events stand in one list by descending priority. -/
structure HookRegistry (H R : Type) where
  hooks : List (Hook H) := []
  rules : List (StepRule R) := []

namespace HookRegistry

variable {H R : Type}

/-- The list with a hook behind all that have at least its priority. -/
def insertHook (hook : Hook H) : List (Hook H) → List (Hook H)
  | [] => [hook]
  | existing :: hooks =>
    if existing.priority < hook.priority then hook :: existing :: hooks
    else existing :: insertHook hook hooks

/-- Registers a hook for the event of a name. -/
def onEvent (r : HookRegistry H R) (event : String) (handler : H) (priority : Int)
    (owner : String) : Except ExtensionError (HookRegistry H R) :=
  match Event.ofName? event with
  | none => .error (.unknownEvent event)
  | some event =>
    let hook := ⟨r.hooks.length, event, priority, handler, owner⟩
    .ok { r with hooks := insertHook hook r.hooks }

/-- Registers a step rule. -/
def everySteps (r : HookRegistry H R) (every : Int) (handler : R) (owner name : String) :
    Except ExtensionError (HookRegistry H R) :=
  if every ≤ 0 then .error .stepInterval
  else .ok { r with rules := r.rules ++ [⟨r.rules.length, every, handler, owner, name⟩] }

/-- The hooks of an event, in the order in which they are called. -/
def hooksFor (r : HookRegistry H R) (event : Event) : List (Hook H) :=
  r.hooks.filter (·.event = event)

/-- The hooks of the event of a name; there are none for a name without an event. -/
def hooksNamed (r : HookRegistry H R) (event : String) : List (Hook H) :=
  match Event.ofName? event with
  | some event => r.hooksFor event
  | none => []

/-- The rules that fire at a step. -/
def rulesAt (r : HookRegistry H R) (step : Int) : List (StepRule R) :=
  r.rules.filter fun rule => step % rule.every == 0

end HookRegistry

end CommandBatch
