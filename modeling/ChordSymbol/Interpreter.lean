import ChordSymbol.Combination
import ChordSymbol.Derivation
import ChordSymbol.Display
import ChordSymbol.Note

/-! Reading a chord symbol: root, tokens, a check that they go together, and the voicing they
make. -/
namespace ChordSymbol

/-- A root and modifiers that go together, in the order written. -/
structure Reading where
  root : String
  tokens : List Token
  deriving DecidableEq

/-- All that is known of one chord symbol. -/
structure Chord where
  input : String
  root : String
  /-- The spellings of the modifiers, in the order written. -/
  modifiers : List String
  steps : List Step
  voicing : Voicing
  display : Display
  pitchClasses : List Int
  deriving DecidableEq

/-- A lexicon, and what to put between semitones. -/
structure Interpreter where
  lexicon : Lexicon
  separator : String
  deriving DecidableEq

namespace Interpreter

def ofLexicon (lx : Lexicon) : Interpreter := ⟨lx, Display.defaultSeparator⟩

/-- The root and modifiers of a symbol without a slash; the first stage that fails speaks. -/
def resolve (i : Interpreter) (symbol : String) : Except Refusal Reading := do
  let (root, suffix) ← Note.cut symbol
  let tokens ← i.lexicon.tokenize suffix
  let kept ← i.lexicon.validate tokens
  return ⟨root, kept⟩

def chord (symbol : String) (r : Reading) (d : Derivation) (shown : Display) : Chord where
  input := symbol
  root := r.root
  modifiers := r.tokens.map (·.symbol)
  steps := d.steps
  voicing := d.voicing
  display := shown
  pitchClasses :=
    match Note.pitchClass? r.root with
    | some pc => d.voicing.pitchClasses pc
    | none => []

/-- A chord symbol without a slash, in full. -/
def parse (i : Interpreter) (symbol : String) : Except Refusal Chord := do
  let r ← i.resolve symbol
  let d ← i.lexicon.derive r.tokens
  let shown ← Display.ofVoicing i.separator d.voicing
  return chord symbol r d shown

end Interpreter
end ChordSymbol
