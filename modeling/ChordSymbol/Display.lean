import ChordSymbol.Voicing
import ChordSymbol.Refusal

/-! Voicings in words: interval names, joined semitones and pitch classes. -/
namespace ChordSymbol

namespace Interval

/-- Names of the intervals from unison to octave, by semitones. -/
def names : List String :=
  ["P1", "m2", "M2", "m3", "M3", "P4", "TT", "P5", "m6", "M6", "m7", "M7", "P8"]

def name? : Int → Option String
  | .ofNat n => names[n]?
  | .negSucc _ => none

end Interval

/-- Semitones in decimal with `separator` between them. -/
def joinSemitones (separator : String) (xs : List Int) : String :=
  separator.intercalate (xs.map Decimal.ofInt)

/-- A voicing as it is shown; the four fields list the same tones, lowest role first. -/
structure Display where
  roles : List Role
  names : List String
  semitones : List Int
  text : String
  deriving DecidableEq

namespace Display

/-- Between semitones unless another separator is asked for. -/
def defaultSeparator : String := "·"

/-- The name of a tone within one octave. -/
def toneName (e : Role × Int) : Except Refusal String :=
  match Interval.name? (e.2 % 12) with
  | some n => .ok n
  | none => .error (.unnamedInterval e.1 e.2)

def ofVoicing (separator : String) (v : Voicing) : Except Refusal Display :=
  match v.toList.mapM toneName with
  | .error e => .error e
  | .ok names => .ok ⟨v.toList.map (·.1), names, v.semitones, joinSemitones separator v.semitones⟩

end Display

/-- The pitch classes of the tones above a root of pitch class `root`. -/
def Voicing.pitchClasses (v : Voicing) (root : Int) : List Int :=
  v.semitones.map fun x => Semitones.sum root x % 12

end ChordSymbol
