import CommandBatch.CommandLine.Session
import CommandBatch.Standard.Tensors

/-!
# The program

The command line of the machine it runs on: the files that a command line names are looked up
beforehand, waits take their time, and lines at the prompt are answered as they come.
-/

namespace CommandBatch.Program

open Files Extension CommandLine

/-- More than a run is expected to spend. -/
def plenty : Nat := 0x4000000000000000

/-- What is at a place, if there is anything. -/
def lookUp (place : List String) : IO (Option (Node (SourceFile Unit))) := do
  let path := (← IO.currentDir) / ("/" ++ "/".intercalate place)
  if ← path.isDir then return some .directory
  else if ← path.pathExists then
    return some (.file { bytes := (← IO.FS.readBinFile path).toList })
  else return none

/-- The installation with what is on the way to some paths. -/
def survey (w : Installation Unit) (paths : List String) : IO (Installation Unit) := do
  let mut nodes := w.tree.nodes
  for path in paths do
    let names := Path.plainNames (w.absolute path)
    for length in [1:names.length + 1] do
      let place := names.take length
      if let some node ← lookUp place then nodes := nodes ++ [(place, node)]
  return { w with tree := ⟨nodes⟩ }

/-- The installation with what a command line may ask for. -/
def surveyFor (w : Installation Unit) (words : List String) : IO (Installation Unit) := do
  match parse words with
  | .ok (.run o) =>
    let w ← survey w (o.program.toList ++ o.extensions)
    match w.gather o.extensions with
    | .ok paths => survey w paths
    | .error _ => return w
  | _ => return w

/-- The installation with the bundled extensions alone. -/
def bare : IO (Installation Unit) := do
  let bundled := ((← IO.appDir) / "ext").toString
  let place := Path.plainNames (bundled ++ "/tensor.py")
  return {
    tree := ⟨[(place, .file { loaded := .ok Standard.Tensors.extension })]⟩
    directory := (← IO.currentDir).toString
    bundled }

/-- Takes the time of a wait. Nothing outside gives a sign, so none is waited for. -/
def rest : Wait → IO Unit
  | .sleep seconds => IO.sleep (seconds * 1000.0).toUInt32
  | .block => pure ()

/-- Carries out a run and writes its output before each wait. Gives the result, and the length of
the transcript up to which the output has been written. -/
def carryOut (written : Nat) : Run Unit Int → IO (RunResult Unit × Nat)
  | .ended r => return (some r, written)
  | .exhausted _ => return (none, written)
  | .waiting e w next => do
    IO.print (printedSince written e.transcript)
    (← IO.getStdout).flush
    rest w
    carryOut e.transcript.size (next .resume e)

/-- Writes what is on a console. -/
def write (c : Console) : IO Unit := do
  IO.print c.out
  (← IO.getStdout).flush
  IO.eprint c.err

/-- The status of a session on the machine. -/
def exitCode : Ending → IO UInt32
  | .status code | .dismissed code => return (code % 256).toNat.toUInt32
  | .broken f => do
    IO.eprintln s!"{f.kind}: {f.message}"
    return 1
  | .exhausted => return 1

/-- Answers lines at the prompt until the input ends. -/
partial def converse (e : Engine Unit) : IO UInt32 := do
  IO.print prompt
  (← IO.getStdout).flush
  let line ← (← IO.getStdin).getLine
  if line.isEmpty then
    let s := farewell e {}
    write s.console
    exitCode s.ending
  else
    let text := (Text.inputLines line).headD ""
    let (result, written) ← carryOut e.transcript.size (Engine.carryOut plenty (.runLine text) e)
    match concludeLine written {} result with
    | .next e c =>
      write c
      converse e
    | .over s =>
      write s.console
      exitCode s.ending

end CommandBatch.Program

open CommandBatch CommandBatch.Program CommandBatch.CommandLine in
/-- Runs the program of a command line, or the prompt. -/
def main (words : List String) : IO UInt32 := do
  let w ← surveyFor (← bare) words
  match start w () words with
  | .over s =>
    write s.console
    exitCode s.ending
  | .prompt e =>
    IO.print greeting
    Program.converse e
  | .program o e lines =>
    let (result, written) ← carryOut 0 (Engine.carryOut plenty (.runBatch lines) e)
    let s := concludeProgram o written result
    write s.console
    exitCode s.ending
