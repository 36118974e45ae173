import CommandBatch.CommandLine.Options

/-!
# Usage

The text that tells how the program is called, and the one that comes with a refusal.
-/

namespace CommandBatch.CommandLine

/-- The name of the program. -/
def programName : String := "commander"

/-- The options and the operand in short. -/
def usage : String :=
  "usage: commander [-h] [-source] [-verbose] [--traceback-json] [--ext PATH]\n" ++
  "                 [program]\n"

/-- What the program is, and what its options are for. -/
def help : String :=
  usage ++
  "\n" ++
  "Commander batch interpreter\n" ++
  "\n" ++
  "positional arguments:\n" ++
  "  program              Batch file path or literal source with -source\n" ++
  "\n" ++
  "options:\n" ++
  "  -h, --help           show this help message and exit\n" ++
  "  -source, --source    Treat program argument as literal source text\n" ++
  "  -verbose, --verbose  Emit variable snapshots in tracebacks\n" ++
  "  --traceback-json     Also emit JSON traceback\n" ++
  "  --ext PATH           Load an extension (.py, .cmdx or bundled name);\n" ++
  "                       repeatable\n"

/-- What is written where a command line is refused. -/
def refusal (e : UsageError) : String :=
  usage ++ programName ++ ": error: " ++ e.message ++ "\n"

end CommandBatch.CommandLine
