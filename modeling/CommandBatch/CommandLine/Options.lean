import CommandBatch.Text.Digit
import CommandBatch.Text.Pieces
import CommandBatch.Text.Quoted

/-!
# Options

The words of the command line are options and operands. A word that begins with a dash is an option
by one of its spellings or by an abbreviation that fits only one of them; a value may be attached
behind an equals sign. Behind a word of two dashes there are only operands. A word that looks like
a negative number, or like an unknown option with a space in it, is an operand too.

All words are recognised first, and then followed in their order.
-/

namespace CommandBatch.CommandLine

open Text

/-- The options. -/
inductive Switch where
  | help
  | source
  | verbose
  | structured
  | extension
  deriving DecidableEq, Repr

namespace Switch

/-- The spellings of an option. -/
def spellings : Switch → List String
  | help => ["-h", "--help"]
  | source => ["-source", "--source"]
  | verbose => ["-verbose", "--verbose"]
  | structured => ["--traceback-json"]
  | extension => ["--ext"]

/-- The options in the order of the usage text. -/
def all : List Switch := [help, source, verbose, structured, extension]

/-- The name that messages give an option: its spellings. -/
def title (s : Switch) : String := "/".intercalate s.spellings

/-- Every spelling with its option. -/
def table : List (String × Switch) := all.flatMap fun s => s.spellings.map (·, s)

/-- The option of a spelling. -/
def ofSpelling? (spelling : String) : Option Switch := table.lookup spelling

end Switch

/-- Why a command line is refused. -/
inductive UsageError where
  /-- An abbreviation fits several spellings. -/
  | ambiguous (word : String) (spellings : List String)
  /-- An option without a value is given one. -/
  | surplusValue (s : Switch) (value : String)
  /-- An option lacks its value. -/
  | missingValue (s : Switch)
  /-- Words are left over. -/
  | unrecognized (words : List String)
  deriving DecidableEq, Repr

/-- The wording of a refusal. -/
def UsageError.message : UsageError → String
  | ambiguous word spellings =>
    let shown := ", ".intercalate spellings
    s!"ambiguous option: {word} could match {shown}"
  | surplusValue s value => s!"argument {s.title}: ignored explicit argument {quoted value}"
  | missingValue s => s!"argument {s.title}: expected one argument"
  | unrecognized words => "unrecognized arguments: " ++ " ".intercalate words

/-- What is attached to an option in the same word. -/
inductive Attachment where
  /-- A value behind an equals sign. -/
  | value (text : String)
  /-- More characters behind the only letter of the option. -/
  | letters (text : List Char)
  deriving DecidableEq, Repr

/-- A word of the command line. -/
inductive Word where
  | operand (text : String)
  /-- The word of two dashes. -/
  | divider
  | option (s : Switch) (attached : Option Attachment)
  /-- A word that is spelled like an option but is none. -/
  | unknown (text : String)
  deriving DecidableEq, Repr

namespace Word

/-- The word of two dashes. -/
def dividerText : String := "--"

/-- The text in front of the first equals sign, and the text behind it if there is one. -/
def splitValue (cs : List Char) : List Char × Option String :=
  match cs.dropWhile (· ≠ '=') with
  | [] => (cs, none)
  | _ :: value => (cs.takeWhile (· ≠ '='), some (.ofList value))

/-- The characters are a negative number without an exponent. A line feed at the end does not
count. -/
def isNegativeNumber (cs : List Char) : Bool :=
  match if cs.getLast? = some '\n' then cs.dropLast else cs with
  | '-' :: number =>
    match piecesAt '.' number with
    | [whole] => !whole.isEmpty && whole.all isDecimalDigit
    | [whole, places] => whole.all isDecimalDigit && !places.isEmpty && places.all isDecimalDigit
    | _ => false
  | _ => false

/-- The spellings that a word with two dashes in front may abbreviate. -/
def fitsLong (cs : List Char) : List (String × Word) :=
  let (start, value) := splitValue cs
  Switch.table.filterMap fun (spelling, s) =>
    if start.isPrefixOf spelling.toList then some (spelling, .option s (value.map .value)) else none

/-- The spellings that a word with one dash in front may abbreviate, or the option of its first
letter with more letters behind it. -/
def fitsShort (cs : List Char) : List (String × Word) :=
  Switch.table.filterMap fun (spelling, s) =>
    if spelling.toList = cs.take 2 then some (spelling, .option s (some (.letters (cs.drop 2))))
    else if cs.isPrefixOf spelling.toList then some (spelling, .option s none)
    else none

/-- A word with a dash in front that is no spelling of an option. -/
def classifyOther (cs : List Char) : Except UsageError Word :=
  match if cs.take 2 = ['-', '-'] then fitsLong cs else fitsShort cs with
  | [] =>
    .ok (if isNegativeNumber cs || cs.contains ' ' then .operand (.ofList cs)
      else .unknown (.ofList cs))
  | [(_, word)] => .ok word
  | candidates => .error (.ambiguous (.ofList cs) (candidates.map (·.1)))

/-- What a word is. -/
def classify (text : String) : Except UsageError Word :=
  let cs := text.toList
  if cs.head? ≠ some '-' then .ok (.operand text)
  else
    match Switch.ofSpelling? text with
    | some s => .ok (.option s none)
    | none =>
      if cs.length = 1 then .ok (.operand text)
      else
        match splitValue cs with
        | (_, none) => classifyOther cs
        | (name, some value) =>
          match Switch.ofSpelling? (.ofList name) with
          | some s => .ok (.option s (some (.value value)))
          | none => classifyOther cs

/-- What the words of a command line are. -/
def classifyAll : List String → Except UsageError (List Word)
  | [] => .ok []
  | text :: texts =>
    if text = dividerText then .ok (.divider :: texts.map .operand)
    else do
      let word ← classify text
      return word :: (← classifyAll texts)

end Word

/-- What a run is asked to be like. -/
structure Options where
  /-- The path of the program, or its text. -/
  program : Option String := none
  /-- The program is given as a text. -/
  source : Bool := false
  /-- Reports have summaries of the variables. -/
  verbose : Bool := false
  /-- Reports are also given as structured data. -/
  structured : Bool := false
  /-- The extensions, in order. -/
  extensions : List String := []
  deriving DecidableEq, Repr

/-- What the command line asks for. -/
inductive Request where
  | help
  | run (o : Options)
  deriving DecidableEq, Repr

/-- What has been read of the command line: the options so far, whether the place of the program is
taken, and the words that are left over. -/
structure Intake where
  options : Options := {}
  closed : Bool := false
  surplus : List String := []

namespace Intake

/-- Leaves a word over. -/
def leave (i : Intake) (text : String) : Intake := { i with surplus := i.surplus ++ [text] }

/-- Takes the program. -/
def take (i : Intake) (text : String) : Intake :=
  { i with options := { i.options with program := some text }, closed := true }

/-- Adds an extension. -/
def extend (i : Intake) (path : String) : Intake :=
  { i with options := { i.options with extensions := i.options.extensions ++ [path] } }

/-- Turns an option without a value on. Help is not among them. -/
def turnOn (i : Intake) : Switch → Intake
  | .source => { i with options := { i.options with source := true } }
  | .verbose => { i with options := { i.options with verbose := true } }
  | .structured => { i with options := { i.options with structured := true } }
  | .help | .extension => i

/-- The options that are written together behind one dash, the first of them known, and the word
that is left over where a letter is no option. -/
def cluster (s : Switch) : List Char → Except UsageError (List Switch × Option String)
  | [] => .ok ([s], none)
  | '=' :: value => .error (.surplusValue s (.ofList value))
  | '-' :: letters => .error (.surplusValue s (.ofList ('-' :: letters)))
  | letter :: letters =>
    match Switch.ofSpelling? (.ofList ['-', letter]) with
    | some next => do
      let (more, rest) ← cluster next letters
      return (s :: more, rest)
    | none => .ok ([s], some (.ofList ('-' :: letter :: letters)))

/-- The options of a word, none of which has a value, and the word that is left over. -/
def flags (s : Switch) : Option Attachment → Except UsageError (List Switch × Option String)
  | none => .ok ([s], none)
  | some (.value text) => .error (.surplusValue s text)
  | some (.letters letters) => cluster s letters

/-- Follows the words of a command line. The divider counts as taken together with the operand
beside it that is the program; help ends the reading at once. -/
def follow (i : Intake) : List Word → Except UsageError Request
  | [] => if i.surplus = [] then .ok (.run i.options) else .error (.unrecognized i.surplus)
  | .operand text :: .divider :: words =>
    if i.closed then ((i.leave text).leave Word.dividerText).follow words
    else (i.take text).follow words
  | .operand text :: words =>
    (if i.closed then i.leave text else i.take text).follow words
  | .divider :: words => (if i.closed then i.leave Word.dividerText else i).follow words
  | .unknown text :: words => (i.leave text).follow words
  | .option .extension (some (.value path)) :: words => (i.extend path).follow words
  | .option .extension (some (.letters path)) :: words => (i.extend (.ofList path)).follow words
  | .option .extension none :: .operand path :: words => (i.extend path).follow words
  | .option .extension none :: _ => .error (.missingValue .extension)
  | .option s attached :: words => do
    let (switches, rest) ← flags s attached
    if switches.contains .help then .ok .help
    else
      let i := switches.foldl turnOn i
      ((rest.map i.leave).getD i).follow words

end Intake

/-- What the words of the command line ask for. -/
def parse (words : List String) : Except UsageError Request := do
  ({} : Intake).follow (← Word.classifyAll words)

end CommandBatch.CommandLine
