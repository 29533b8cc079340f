import ChordSymbol.Document.Reader
import ChordSymbol.Failure

/-! Repertoires: chord symbols to compare, by whether they are expected to be accepted. -/
namespace ChordSymbol

structure Repertoire where
  valid : List String
  invalid : List String
  deriving DecidableEq

namespace Repertoire

/-- The valid ones first. -/
def all (r : Repertoire) : List String := r.valid ++ r.invalid

open Document in
def ofDocument (source : String) : Except Failure Repertoire :=
  let read : Option Repertoire := do
    let es ← (← read? source).entries?
    return {
      valid := ← withDefault? "valid" (Node.list? Node.text?) [] es
      invalid := ← withDefault? "invalid" (Node.list? Node.text?) [] es }
  match read with
  | some r => .ok r
  | none => .error .malformedSettings

/-- The built-in repertoire. -/
def standard : Repertoire where
  valid := [
    "Cmaj", "CM", "Cmaj7", "CM7", "CM7b9",
    "Cm", "Cmin", "Cm7", "Cm9", "Cm11", "Cm13",
    "Cm7b5", "CmM7", "Cm7#5", "Cm7b9", "Cm9b5",
    "C7", "C9", "C11", "C13", "C7sus4",
    "C7#5", "C7b9", "C7#9", "C7#11", "C7b13", "C7b9#11", "C7#9b13", "C13#11", "C13#13",
    "Csus", "Csus4", "Csus2",
    "Cdim", "Cdim7", "Caug", "C+", "C°",
    "C/E", "Cmaj7/E", "Cm7/Eb", "C7/Bb", "Csus4/G", "Cadd9/G", "CM7/B",
    "Bb", "Bbmaj7", "Bbm7", "Bb7#11", "Bb/D", "Bbsus4/Ab",
    "Cmaj9", "Cmaj11", "Cmaj13", "Cmaj7#11", "Cmaj9#11", "Cmaj13#11", "CM7#5",
    "Cadd9", "CM7add13", "Cmadd9", "C7add13",
    "Cm/B#"]
  invalid := [
    "Cmajm", "Csus4sus2",
    "Cm7maj7", "C7maj7",
    "Cdimmaj",
    "Csus3", "Cadd1",
    "C7#9#9", "Cmaj7##11",
    "C/H",
    "Csus4b9"]

end Repertoire
end ChordSymbol
