import ChordSymbol.Interpreter
import ChordSymbol.Json

/-! Chords, voicings and edits as JSON values. -/
namespace ChordSymbol

def Edit.toJson (e : Edit) : Json :=
  .object ([("type", .text e.kind.name), ("role", .text e.role.name)] ++
    Json.field? "value" .int e.amount?)

def Voicing.toJson (v : Voicing) : Json :=
  .object (v.toList.map fun e => (e.1.name, .int e.2))

def Display.toJson (d : Display) : Json :=
  .object [("roles", Json.texts (d.roles.map (·.name))), ("names", Json.texts d.names),
    ("semitones", Json.ints d.semitones), ("display", .text d.text)]

/-- Roles filled in besides are listed only if there are any. -/
def Step.toJson (s : Step) : Json :=
  .object ([("modifier", .text s.symbol), ("operation", s.edit.toJson),
    ("before", Json.optional .int s.before), ("after", Json.optional .int s.after)] ++
    if s.backfilled = [] then [] else [("backfilled", Json.texts (s.backfilled.map (·.name)))])

def Chord.toJson (c : Chord) : Json :=
  .object [("input", .text c.input), ("root", .text c.root), ("modifiers", Json.texts c.modifiers),
    ("operations", .list (c.steps.map (·.toJson))), ("intervals", c.voicing.toJson),
    ("formatted", c.display.toJson), ("pitchClasses", Json.ints c.pitchClasses)]

end ChordSymbol
