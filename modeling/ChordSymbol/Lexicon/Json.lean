import ChordSymbol.Chord.Json

/-! Lexicons as JSON values. Conditions are listed only if there are any, and flags only if set. -/
namespace ChordSymbol

def Rule.toJson (r : Rule) : Json :=
  .object ([("symbols", Json.texts r.symbols), ("category", .text r.category.name),
    ("operations", .list (r.edits.map (·.toJson))), ("priority", .int r.priority)] ++
    (if r.requires = [] then [] else [("requires", Json.texts (r.requires.map (·.text)))]) ++
    (if r.excludes = [] then [] else [("excludes", Json.texts (r.excludes.map (·.name)))]) ++
    (if r.isDefault then [("is-default", .bool true)] else []) ++
    (if r.caseSensitive then [("case-sensitive", .bool true)] else []))

def Lexicon.toJson (lx : Lexicon) : Json := .object [("rules", .list (lx.rules.map (·.toJson)))]

end ChordSymbol
