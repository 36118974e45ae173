/-!
# The events of a run

What happens in a run that hooks can wait for.
-/

namespace CommandBatch

/-- The events of a run. -/
inductive Event where
  | batchStart
  | beforeLine
  | afterLine
  | onError
  | batchEnd
  deriving DecidableEq, Repr

namespace Event

/-- All events. -/
def all : List Event := [batchStart, beforeLine, afterLine, onError, batchEnd]

/-- The name of an event. -/
def name : Event → String
  | batchStart => "batch_start"
  | beforeLine => "before_line"
  | afterLine => "after_line"
  | onError => "on_error"
  | batchEnd => "batch_end"

/-- The event of a name. -/
def ofName? (name : String) : Option Event := all.find? (·.name = name)

end Event

end CommandBatch
