/-! Arguments of the command line. Options may stand before the command and after it; given in both
places, the later one counts, but given twice in one place they are refused. -/
namespace ChordSymbol.CommandLine

/-- What to do. -/
inductive Command
  | parse (chord : String) (trace json : Bool)
  | compare (csv : Option String) (json : Bool)
  | rules
  deriving DecidableEq

/-- What to do, and with which settings. -/
structure Invocation where
  config : Option String
  rules : Option String
  separator : Option String
  noColor : Bool
  verbose : Bool
  command : Command
  deriving DecidableEq

/-- Why arguments are no invocation: they ask for something else, or they are wrong. -/
inductive Stop
  | version | help | misuse
  deriving DecidableEq

/-- The part of the arguments that is being read: before a command, or after it. -/
inductive Scope
  | top | parse | compare | rules
  deriving DecidableEq

def Scope.ofName? : String → Option Scope
  | "parse" => some parse
  | "compare" => some compare
  | "rules" => some rules
  | _ => none

/-- What one part of the arguments gives. -/
structure Given where
  config : Option String := none
  rules : Option String := none
  separator : Option String := none
  csv : Option String := none
  chord : Option String := none
  noColor : Bool := false
  verbose : Bool := false
  trace : Bool := false
  json : Bool := false
  deriving DecidableEq

namespace Given

def takesValue (scope : Scope) (name : String) : Bool :=
  ["config", "rules", "separator"].contains name || (name = "csv" && scope = .compare)

/-- A path is never empty. -/
def setValue (g : Given) (name value : String) : Except Stop Given :=
  if name = "separator" && g.separator = none then .ok { g with separator := some value }
  else if value = "" then .error .misuse
  else if name = "config" && g.config = none then .ok { g with config := some value }
  else if name = "rules" && g.rules = none then .ok { g with rules := some value }
  else if name = "csv" && g.csv = none then .ok { g with csv := some value }
  else .error .misuse

def setFlag (scope : Scope) (g : Given) (name : String) : Except Stop Given :=
  if name = "help" then .error .help
  else if name = "version" && scope = .top then .error .version
  else if name = "no-color" && !g.noColor then .ok { g with noColor := true }
  else if name = "verbose" && !g.verbose then .ok { g with verbose := true }
  else if name = "trace" && scope = .parse && !g.trace then .ok { g with trace := true }
  else if name = "json" && (scope = .parse || scope = .compare) && !g.json then
    .ok { g with json := true }
  else .error .misuse

/-- Flags of one letter, several of which may share a dash. -/
def setLetters (scope : Scope) (g : Given) : List Char → Except Stop Given
  | [] => .ok g
  | c :: cs => do
    let name ← match c with
      | 'v' => pure "verbose"
      | 'h' => pure "help"
      | 'V' => pure "version"
      | _ => .error .misuse
    setLetters scope (← g.setFlag scope name) cs

/-- A word that is neither an option nor a command. -/
def setWord (scope : Scope) (g : Given) (word : String) : Except Stop Given :=
  if scope = .parse && g.chord = none then .ok { g with chord := some word } else .error .misuse

end Given

/-- An argument by its looks; a single dash is a word. -/
inductive Shape
  | word
  | endOfOptions
  | letters (cs : List Char)
  | option (name : String) (value : Option String)

def shape (arg : String) : Shape :=
  match arg.toList with
  | '-' :: '-' :: [] => .endOfOptions
  | '-' :: '-' :: cs =>
    match cs.dropWhile (· ≠ '=') with
    | [] => .option (String.ofList cs) none
    | _ :: value => .option (String.ofList (cs.takeWhile (· ≠ '='))) (some (String.ofList value))
  | '-' :: c :: cs => .letters (c :: cs)
  | _ => .word

def isWord (arg : String) : Bool :=
  match shape arg with
  | .word => true
  | _ => false

/-- Reads arguments up to a command, or to their end. -/
def readScope (scope : Scope) (g : Given) :
    List String → Except Stop (Given × Option (Scope × List String))
  | [] => .ok (g, none)
  | arg :: args =>
    match shape arg with
    | .endOfOptions => do return (← args.foldlM (Given.setWord scope) g, none)
    | .letters cs => do readScope scope (← g.setLetters scope cs) args
    | .option name (some value) =>
      if Given.takesValue scope name then do readScope scope (← g.setValue name value) args
      else .error .misuse
    | .option name none =>
      if Given.takesValue scope name then
        match args with
        | value :: args =>
          if isWord value then do readScope scope (← g.setValue name value) args
          else .error .misuse
        | [] => .error .misuse
      else do readScope scope (← g.setFlag scope name) args
    | .word =>
      if scope = .top then
        match Scope.ofName? arg with
        | some next => .ok (g, some (next, args))
        | none => .error (if arg = "help" then .help else .misuse)
      else do readScope scope (← g.setWord scope arg) args

def command? (scope : Scope) (g : Given) : Option Command :=
  match scope with
  | .top => none
  | .parse => g.chord.map (.parse · g.trace g.json)
  | .compare => some (.compare g.csv g.json)
  | .rules => some .rules

def read (args : List String) : Except Stop Invocation := do
  let (before, next) ← readScope .top {} args
  match next with
  | none => .error .misuse
  | some (scope, args) =>
    let (after, _) ← readScope scope {} args
    match command? scope after with
    | none => .error .misuse
    | some command =>
      return {
        config := after.config.or before.config
        rules := after.rules.or before.rules
        separator := after.separator.or before.separator
        noColor := after.noColor || before.noColor
        verbose := after.verbose || before.verbose
        command := command }

end ChordSymbol.CommandLine
