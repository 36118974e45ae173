import CommandBatch.Engine.Basic
import CommandBatch.Command.Binding

/-!
# Runs

A run may wait, and others may use the engine until it goes on. So an operation that may take time
gives a result at once, or the engine as it stands with what follows a sign to go on or to stop.

A batch may jump backwards for ever, and handlers may execute lines in turn. Both are bounded: a
batch spends one of a number with every line, a task inside another one of it with every level. A run
that has spent it all is exhausted, which is neither success nor failure. The operations on one line
are defined without it, given what carries out the tasks that handlers wait for.
-/

namespace CommandBatch

/-- What a waiting run is told. -/
inductive Signal where
  | resume
  | cancel
  deriving DecidableEq, Repr

/-- How far an operation has come. -/
inductive Run (σ α : Type) : Type where
  /-- It has ended, with a result or a fault. -/
  | ended (r : EStateM.Result Fault (Engine σ) α)
  /-- It waits, and goes on from the engine as it then stands. -/
  | waiting (e : Engine σ) (w : Wait) (next : Signal → Engine σ → Run σ α)
  /-- It has spent what it was given. -/
  | exhausted (e : Engine σ)

namespace Run

variable {σ α β : Type}

/-- Goes on with the result or the fault of an operation once it has ended. -/
def andThen (r : Run σ α) (next : EStateM.Result Fault (Engine σ) α → Run σ β) : Run σ β :=
  match r with
  | .ended r => next r
  | .waiting e w resume => .waiting e w fun signal e => (resume signal e).andThen next
  | .exhausted e => .exhausted e

@[simp] theorem andThen_ended (r : EStateM.Result Fault (Engine σ) α)
    (next : EStateM.Result Fault (Engine σ) α → Run σ β) :
    (Run.ended r).andThen next = next r := rfl

/-- The result of an operation whose waits pass with nothing happening meanwhile, unless it is
exhausted. -/
def result? : Run σ α → Option (EStateM.Result Fault (Engine σ) α)
  | .ended r => some r
  | .waiting e _ next => (next .resume e).result?
  | .exhausted _ => none

/-- Lets waits for time pass, up to a wait for a sign from outside. -/
def passTime : Run σ α → Run σ α
  | .ended r => .ended r
  | .waiting e (.sleep _) next => (next .resume e).passTime
  | .waiting e .block next => .waiting e .block next
  | .exhausted e => .exhausted e

end Run

/-- An operation that may take time. -/
def Process (σ α : Type) : Type := Engine σ → Run σ α

namespace Process

variable {σ α β : Type}

/-- An operation that does not wait. -/
def ofAct (act : Act σ α) : Process σ α := fun e => .ended (act e)

instance : Monad (Process σ) where
  pure a := fun e => .ended (.ok a e)
  bind x f := fun e => (x e).andThen fun r =>
    match r with
    | .ok a e => f a e
    | .error f e => .ended (.error f e)

/-- Frees the engine when the operation has ended, one way or the other. -/
def releasing (x : Process σ α) : Process σ α := fun e => (x e).andThen fun r =>
  match r with
  | .ok a e => .ended (.ok a { e with busy := false })
  | .error f e => .ended (.error f { e with busy := false })

/-- The outcome of an operation, fault or not. -/
def attempt (x : Process σ α) : Process σ (Except Fault α) := fun e => (x e).andThen fun r =>
  match r with
  | .ok a e => .ended (.ok (.ok a) e)
  | .error f e => .ended (.ok (.error f) e)

/-- Waits, and breaks off if it is told to stop. -/
def wait (w : Wait) : Process σ Unit := fun e => .waiting e w fun signal e =>
  match signal with
  | .resume => .ended (.ok () e)
  | .cancel => .ended (.error .cancelled e)

end Process

namespace Engine

variable {σ : Type} (go : Task → Process σ Int)

/-- Plays a script. The tasks that it waits for are carried out by `go`. -/
def playOut : Script σ → Process σ Datum
  | .done answer => pure answer
  | .raise f => Process.ofAct (throw f)
  | .look next => fun e => playOut (next e.view) e
  | .recall change next => fun e => playOut (next e.host) { e with host := change e.host }
  | .edit ed next => do playOut (next (← Process.ofAct (attempt (edit ed))))
  | .registerCommand d handler next => do
    playOut (next (← Process.ofAct (attempt (registerCommand d handler))))
  | .interpret line next => do playOut (next (← Process.ofAct (attempt (interpret line))))
  | .await t next => do playOut (next (← (go t).attempt))
  | .wait w next => do
    Process.wait w
    playOut next

/-- Executes the command that was interpreted last: finds it, binds its arguments and calls its
handler. -/
def execute : Process σ Int := fun e =>
  let name := e.progress.command
  let text := e.progress.text
  if name = "" then .ended (.ok 0 e)
  else
    match e.services.commands.find? name with
    | none => .ended (fail (.unknownCommand name) text e)
    | some command =>
      match command.signature.bind e.env e.progress.args with
      | .error r => .ended (refuse r text e)
      | .ok args => (do
          let outcome ← (playOut go (command.handler args)).attempt
          .ofAct (outcomeCode name text outcome) : Process σ Int) e

/-- Executes the line that was interpreted last, unless that failed with a code. -/
def executeUnless (code : Int) : Process σ Int :=
  if code = 0 then execute go else pure code

/-- Runs the line of an index. -/
def step (index : Nat) (text : String) : Process σ Int := do
  let code ← .ofAct (openLine index text)
  let code ← executeUnless go code
  .ofAct (closeLine index text code)

/-- Goes on with the batch: runs the line that the cursor points at, with the cursor moved to the
next one beforehand, and then the rest, unless that line failed. Every line spends one of a number. -/
def proceed : Nat → Process σ Int
  | 0 => .exhausted
  | lines + 1 => fun e =>
    match nextLine? e.progress with
    | none => .ended (.ok 0 e)
    | some (index, text) => (do
        .ofAct (progressBy fun p => { p with cursor := index + 1 })
        let code ← step go index text
        if code = 0 then proceed lines else pure code : Process σ Int) e

/-- A run: an operation during which the engine is busy, and its completion. -/
def during (x : Process σ Int) : Process σ Int := do
  .ofAct enter
  let code ← x.releasing
  .ofAct (complete code)

/-- Runs a batch, up to a number of lines. -/
def runBatch (most : Nat) (lines : List String) : Process σ Int :=
  during do
    .ofAct (openBatch lines 0)
    proceed go most

/-- Runs a single line, with the cursor behind it. -/
def runLine (line : String) : Process σ Int :=
  during do
    .ofAct (openBatch [line] 1)
    step go 0 line

/-- Carries out a task, given what carries out the tasks inside it and how many lines a batch may
run. -/
def carryOutWith (most : Nat) : Task → Process σ Int
  | .execute => execute go
  | .runLine line => runLine go line
  | .runBatch lines => runBatch go most lines

/-- Carries out a task. Every task inside another spends one of `fuel`, as does every line of a
batch. -/
def carryOut : Nat → Task → Process σ Int
  | 0, _ => .exhausted
  | fuel + 1, t => carryOutWith (carryOut fuel) fuel t

end Engine

end CommandBatch
