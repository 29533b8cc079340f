import ChordSymbol.Note

/-! A handbook of common chords: suffixes looked up whole, to compare the interpreter with.
What is not listed is unsupported rather than guessed at. -/
namespace ChordSymbol.Handbook

/-- Suffixes, and the semitones that they all stand for. -/
abbrev Entry := List String × List Int

def triads : List Entry := [
  (["", "maj", "M"], [0, 4, 7]),
  (["m", "min", "-"], [0, 3, 7]),
  (["dim", "°"], [0, 3, 6]),
  (["aug", "+"], [0, 4, 8])]

def suspended : List Entry := [
  (["sus", "sus4"], [0, 5, 7]),
  (["sus2"], [0, 2, 7]),
  (["7sus4"], [0, 5, 7, 10])]

def sevenths : List Entry := [
  (["7"], [0, 4, 7, 10]),
  (["maj7", "M7"], [0, 4, 7, 11]),
  (["m7", "min7", "-7"], [0, 3, 7, 10]),
  (["mM7"], [0, 3, 7, 11]),
  (["m7b5", "ø"], [0, 3, 6, 10]),
  (["dim7", "°7"], [0, 3, 6, 9])]

/-- Sixths stay below the octave here. -/
def addedTones : List Entry := [
  (["6"], [0, 4, 7, 9]),
  (["m6"], [0, 3, 7, 9]),
  (["add9"], [0, 4, 7, 14]),
  (["madd9"], [0, 3, 7, 14])]

def extended : List Entry := [
  (["9"], [0, 4, 7, 10, 14]),
  (["maj9", "M9"], [0, 4, 7, 11, 14]),
  (["m9", "min9"], [0, 3, 7, 10, 14]),
  (["11"], [0, 4, 7, 10, 14, 17]),
  (["m11"], [0, 3, 7, 10, 14, 17]),
  (["13"], [0, 4, 7, 10, 14, 21]),
  (["maj13"], [0, 4, 7, 11, 14, 21]),
  (["m13"], [0, 3, 7, 10, 14, 21])]

def alteredDominants : List Entry := [
  (["7b5"], [0, 4, 6, 10]),
  (["7#5"], [0, 4, 8, 10]),
  (["7b9"], [0, 4, 7, 10, 13]),
  (["7#9"], [0, 4, 7, 10, 15]),
  (["7#11"], [0, 4, 7, 10, 18]),
  (["7b13"], [0, 4, 7, 10, 20])]

def entries : List Entry :=
  triads ++ suspended ++ sevenths ++ addedTones ++ extended ++ alteredDominants

def lookup? (suffix : String) : Option (List Int) :=
  (entries.find? (·.1.contains suffix)).map (·.2)

/-- The suffix after a letter and at most one `#` or `b`. -/
def suffix? : List Char → Option (List Char)
  | [] => none
  | c :: cs =>
    if 'A' ≤ c ∧ c ≤ 'G' then
      match cs with
      | '#' :: rest | 'b' :: rest => some rest
      | _ => some cs
    else none

/-- The semitones of a listed chord; a slash and all after it are passed over. -/
def semitones? (symbol : String) : Option (List Int) := do
  let suffix ← suffix? (symbol.toList.takeWhile (· ≠ '/'))
  lookup? (String.ofList suffix)

end ChordSymbol.Handbook
