import ChordSymbol.Folder
import ChordSymbol.Lexicon.Document
import ChordSymbol.Lexicon.Standard
import ChordSymbol.Interpreter

/-! Settings: what a settings file may fix, and what overrides it. -/
namespace ChordSymbol

structure Settings where
  separator : Option String
  /-- The path of a document with the rules to use in place of the built-in ones. -/
  rules : Option String
  color : Option Bool
  deriving DecidableEq

namespace Settings

def empty : Settings := ⟨none, none, none⟩

/-- Characters that do not count when a text is looked at for content. -/
def isSpace (c : Char) : Bool :=
  [0x09, 0x0a, 0x0b, 0x0c, 0x0d, 0x20, 0x85, 0xa0, 0x1680, 0x2028, 0x2029, 0x202f, 0x205f,
    0x3000].contains c.toNat || (0x2000 ≤ c.toNat && c.toNat ≤ 0x200a)

open Document in
def ofNode? (n : Node) : Option Settings := do
  let es ← n.entries?
  guard (es.all fun e => ["separator", "rules", "color"].contains e.1)
  return {
    separator := ← optional? "separator" Node.text? es
    rules := ← optional? "rules" Node.text? es
    color := ← optional? "color" Node.flag? es }

/-- Settings written as a document; a text without content fixes nothing. -/
def ofDocument (source : String) : Except Failure Settings :=
  if source.toList.all isSpace then .ok empty
  else
    match Document.read? source with
    | none => .error .malformedSettings
    | some n =>
      match ofNode? n with
      | none => .error .malformedSettings
      | some s => .ok s

/-- A relative path of rules is meant from the directory `dir`. -/
def relativeTo (dir : String) (s : Settings) : Settings :=
  { s with rules := s.rules.map (Path.join dir) }

/-- What is given here overrides the settings. -/
def override (s : Settings) (separator rules : Option String) (noColor : Bool) : Settings where
  separator := separator.or s.separator
  rules := rules.or s.rules
  color := if noColor then some false else s.color

def usesColor (s : Settings) : Bool := s.color.getD true

def interpreter (s : Settings) (lx : Lexicon) : Interpreter :=
  ⟨lx, s.separator.getD Display.defaultSeparator⟩

section Files

variable {m : Type → Type} [Monad m] (read : String → m (Except FileError String))

/-- Reads a file; a failure names the path. -/
def readFile (path : String) : m (Except Failure String) := do
  match ← read path with
  | .ok content => return .ok content
  | .error cause => return .error (.file path cause)

/-- Settings from a file; rules are looked for next to it. -/
def load (path : String) : m (Except Failure Settings) := do
  match ← readFile read path with
  | .error e => return .error e
  | .ok source => return (ofDocument source).map (relativeTo (Path.directory path))

/-- The interpreter that the settings ask for. -/
def loadInterpreter (s : Settings) : m (Except Failure Interpreter) := do
  match s.rules with
  | none => return .ok (s.interpreter .standard)
  | some path =>
    match ← readFile read path with
    | .error e => return .error e
    | .ok source => return (Failure.ofRefusal (Lexicon.ofDocument source)).map s.interpreter

end Files
end Settings
end ChordSymbol
