import ChordSymbol.Observation
import ChordSymbol.Failure

/-! Slash chords: a chord symbol, a slash and a bass note. The bass is one whole note; it is
checked before the chord and has no part in it. -/
namespace ChordSymbol

structure SlashChord where
  chord : Chord
  bass : Option String
  deriving DecidableEq

namespace SlashChord

/-- The symbol in front of the first slash, and the bass note after it. -/
def cut (symbol : String) : Except Failure (String × Option String) :=
  match Text.cut? '/' symbol with
  | none => .ok (symbol, none)
  | some (head, bass) =>
    match Note.cut bass with
    | .ok (_, "") => .ok (head, some bass)
    | _ => .error (.invalidBass symbol bass)

end SlashChord

namespace Interpreter

def parseSlash (i : Interpreter) (symbol : String) : Except Failure SlashChord := do
  let (head, bass) ← SlashChord.cut symbol
  let c ← Failure.ofRefusal (i.parse head)
  return ⟨c, bass⟩

/-- The log of reading the symbol in front of the slash, and the slash chord. With a bad bass
nothing is read. -/
def observeSlash (i : Interpreter) (symbol : String) : List Event × Except Failure SlashChord :=
  match SlashChord.cut symbol with
  | .error e => ([], .error e)
  | .ok (head, bass) =>
    let o := i.observe head
    (o.events, (Failure.ofRefusal o.outcome).map (⟨·, bass⟩))

end Interpreter
end ChordSymbol
