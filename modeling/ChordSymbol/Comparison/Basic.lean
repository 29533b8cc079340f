import ChordSymbol.SlashChord
import ChordSymbol.Handbook

/-! Comparing the interpreter with the handbook, chord by chord. The two are expected to disagree
here and there; a comparison reports and does not judge. -/
namespace ChordSymbol.Comparison

inductive Outcome
  | same | different | interpreterOnly | handbookOnly | neither
  deriving DecidableEq

namespace Outcome

def all : List Outcome := [same, different, interpreterOnly, handbookOnly, neither]

def name : Outcome → String
  | same => "match"
  | different => "mismatch"
  | interpreterOnly => "engine-only"
  | handbookOnly => "reference-only"
  | neither => "both-rejected"

def ofName? (s : String) : Option Outcome := all.find? (·.name = s)

def ofAnswers : Option (List Int) → Option (List Int) → Outcome
  | some xs, some ys => if xs = ys then same else different
  | some _, none => interpreterOnly
  | none, some _ => handbookOnly
  | none, none => neither

end Outcome

/-- One chord compared: the interpreter's semitones or its reason, and the handbook's. -/
structure Row where
  chord : String
  bass : Option String
  semitones : Option (List Int)
  reason : Option String
  handbook : Option (List Int)
  outcome : Outcome
  deriving DecidableEq

/-- The semitones of what stands in front of the slash, and the bass that is set apart. -/
def answer (i : Interpreter) (chord : String) : Except Failure (List Int × Option String) := do
  let (head, bass) ← SlashChord.cut chord
  let c ← Failure.ofRefusal (i.parse head)
  return (c.display.semitones, bass)

def row (i : Interpreter) (chord : String) : Row :=
  let listed := Handbook.semitones? chord
  match answer i chord with
  | .ok (xs, bass) => ⟨chord, bass, some xs, none, listed, .ofAnswers (some xs) listed⟩
  | .error e => ⟨chord, none, none, some e.message, listed, .ofAnswers none listed⟩

def rows (i : Interpreter) (chords : List String) : List Row := chords.map (row i)

/-- How many rows there are, and how many of each outcome. -/
structure Summary where
  total : Nat
  same : Nat
  different : Nat
  interpreterOnly : Nat
  handbookOnly : Nat
  neither : Nat
  deriving DecidableEq

namespace Summary

def zero : Summary := ⟨0, 0, 0, 0, 0, 0⟩

def count (s : Summary) : Outcome → Nat
  | .same => s.same
  | .different => s.different
  | .interpreterOnly => s.interpreterOnly
  | .handbookOnly => s.handbookOnly
  | .neither => s.neither

def add (s : Summary) (r : Row) : Summary :=
  let s := { s with total := s.total + 1 }
  match r.outcome with
  | .same => { s with same := s.same + 1 }
  | .different => { s with different := s.different + 1 }
  | .interpreterOnly => { s with interpreterOnly := s.interpreterOnly + 1 }
  | .handbookOnly => { s with handbookOnly := s.handbookOnly + 1 }
  | .neither => { s with neither := s.neither + 1 }

def ofRows (rows : List Row) : Summary := rows.foldl add zero

def text (s : Summary) : String :=
  Decimal.ofNat s.total ++ " chords:" ++
    String.join (Outcome.all.map fun o => " " ++ Decimal.ofNat (s.count o) ++ " " ++ o.name)

end Summary
end ChordSymbol.Comparison
