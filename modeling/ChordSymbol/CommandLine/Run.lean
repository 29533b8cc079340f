import ChordSymbol.CommandLine.Arguments
import ChordSymbol.Chord.Json
import ChordSymbol.Comparison.Export
import ChordSymbol.Lexicon.Listing
import ChordSymbol.Repertoire
import ChordSymbol.Settings

/-! What the program does with its arguments, given a way to read and to write files. -/
namespace ChordSymbol.CommandLine

/-- What a run leaves: an exit code and two texts. -/
structure Report where
  exit : Nat
  output : String
  errors : String
  deriving DecidableEq

namespace Report

def lines (xs : List String) : String := String.join (xs.map (· ++ "\n"))

def success (output errors : List String) : Report := ⟨0, lines output, lines errors⟩

/-- A failure after `errors` have been written. -/
def failure (errors : List String) (e : Failure) : Report :=
  ⟨1, "", lines (errors ++ ["Error: " ++ e.message])⟩

end Report

/-- How files are read and written. -/
structure Host (m : Type → Type) where
  read : String → m (Except FileError String)
  write : String → String → m (Except FileError Unit)

def usage : List String := [
  "Interpret chord symbols as interval structures",
  "",
  "Usage: aura [OPTIONS] <COMMAND>",
  "",
  "Commands:",
  "  parse <CHORD>  Resolve a chord symbol [--trace] [--json]",
  "  compare        Compare the engine with the reference lookup [--csv <CSV>] [--json]",
  "  rules          List the active modifier rules",
  "",
  "Options:",
  "      --config <CONFIG>        YAML config file",
  "      --rules <RULES>          YAML rule table replacing the built-in one",
  "      --separator <SEPARATOR>  Separator between semitone values",
  "      --no-color               Disable colored output",
  "  -v, --verbose                Log debug events to stderr",
  "  -h, --help                   Print help",
  "  -V, --version                Print version"]

def ofStop : Stop → Report
  | .version => .success ["aura 0.1.0"] []
  | .help => .success usage []
  | .misuse => ⟨2, "", Report.lines usage⟩

/-- A chord on a terminal: a title and five indented lines. -/
def chordLines (color : Bool) (c : SlashChord) : List String :=
  let title := match c.bass with
    | some b => s!"{c.chord.input} (bass {b})"
    | none => c.chord.input
  [Text.Paint.bold.apply color title,
    "  root       " ++ c.chord.root,
    "  modifiers  " ++ " ".intercalate c.chord.modifiers,
    "  semitones  " ++ c.chord.display.text,
    "  intervals  " ++ " ".intercalate c.chord.display.names,
    "  roles      " ++ " ".intercalate
      (c.chord.voicing.toList.map fun e => e.1.name ++ "=" ++ Decimal.ofInt e.2)]

/-- A traced run reports every step to the error output, and comes to the same result. -/
def runParse (i : Interpreter) (color : Bool) (symbol : String) (trace json : Bool) : Report :=
  let (log, result) :=
    if trace then
      let (events, result) := i.observeSlash symbol
      (events.map (Event.line color), result)
    else ([], i.parseSlash symbol)
  match result with
  | .error e => .failure log e
  | .ok c => .success (if json then [c.chord.toJson.pretty] else chordLines color c) log

section Files

variable {m : Type → Type} [Monad m] (host : Host m)

def runCompare (i : Interpreter) (color : Bool) (csv : Option String) (json : Bool) : m Report := do
  let rows := Comparison.rows i Repertoire.standard.all
  let output :=
    if json then [(Comparison.toJson rows).pretty] else Comparison.listing i.separator color rows
  match csv with
  | none => return .success output []
  | some path =>
    match ← host.write path (Comparison.toCsv rows) with
    | .error cause => return .failure [] (.file path cause)
    | .ok () =>
      return .success output [s!"Wrote {Decimal.ofNat rows.length} rows to {path}"]

/-- Settings come first, then the rules they name, then the command. -/
def runInvocation (v : Invocation) : m Report := do
  let fromFile ← match v.config with
    | some path => Settings.load host.read path
    | none => pure (.ok Settings.empty)
  match fromFile with
  | .error e => return .failure [] e
  | .ok s =>
    let s := s.override v.separator v.rules v.noColor
    match ← s.loadInterpreter host.read with
    | .error e => return .failure [] e
    | .ok i =>
      match v.command with
      | .parse symbol trace json => return runParse i s.usesColor symbol trace json
      | .compare csv json => runCompare host i s.usesColor csv json
      | .rules => return .success i.lexicon.listing []

def run (args : List String) : m Report :=
  match read args with
  | .error stop => return ofStop stop
  | .ok v => runInvocation host v

end Files

/-- A run on a folder in memory. -/
def Host.ofFolder : Host (StateM Folder) where
  read path := do return (← get).read path
  write path content := do
    match (← get).write path content with
    | .ok d => set d; return .ok ()
    | .error cause => return .error cause

/-- The report of a run, and the folder it leaves. -/
def runIn (d : Folder) (args : List String) : Report × Folder := (run Host.ofFolder args).run d

end ChordSymbol.CommandLine
