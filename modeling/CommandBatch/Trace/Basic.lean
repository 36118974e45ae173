/-!
# The trace of a run

A trace counts the steps of a run and keeps the last of them. The count goes on when old entries
are dropped.
-/

namespace CommandBatch

/-- A step of a run. -/
structure TraceEntry where
  /-- The number of the step, from zero. -/
  step : Nat
  /-- The index of its line. -/
  line : Option Int
  /-- The text of the line. -/
  text : String
  /-- The command of the line. -/
  command : String
  /-- The code that the line ended with. -/
  code : Int
  /-- Summaries of the variables behind the step, if they were asked for. -/
  snapshot : Option (List (String × String)) := none
  deriving DecidableEq, Repr

/-- The steps of a run, as far as they are kept. -/
structure Trace where
  /-- The entries that are kept, oldest first. -/
  entries : List TraceEntry := []
  /-- The number of the next step. -/
  next : Nat := 0
  /-- How many entries are kept; all of them where there is no limit. -/
  limit : Option Nat := some 1000

namespace Trace

/-- The last entries, as many as a limit allows. -/
def keepLast (limit : Option Nat) (entries : List TraceEntry) : List TraceEntry :=
  match limit with
  | none => entries
  | some n => entries.drop (entries.length - n)

/-- The entry that the next step would get. -/
def nextEntry (t : Trace) (line : Option Int) (text command : String) (code : Int)
    (snapshot : Option (List (String × String))) : TraceEntry :=
  ⟨t.next, line, text, command, code, snapshot⟩

/-- Takes up an entry. -/
def push (t : Trace) (entry : TraceEntry) : Trace :=
  { t with entries := keepLast t.limit (t.entries ++ [entry]), next := t.next + 1 }

/-- The last entry. -/
def last? (t : Trace) : Option TraceEntry := t.entries.getLast?

/-- The trace of a run that has not begun. -/
def clear (t : Trace) : Trace := { t with entries := [], next := 0 }

/-- The most recent entries: the last `context` of them. The whole trace is taken for zero, and
for a negative number all but that many at its beginning. -/
def recent (t : Trace) (context : Int) : List TraceEntry :=
  if context > 0 then t.entries.drop (t.entries.length - context.toNat)
  else t.entries.drop (-context).toNat

end Trace

end CommandBatch
