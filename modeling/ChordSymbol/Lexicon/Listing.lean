import ChordSymbol.Lexicon.Basic
import ChordSymbol.Text.Column

/-! Lexicons as they are listed on a terminal. -/
namespace ChordSymbol

/-- The listing of one rule: category, priority, spellings and edits in columns, then conditions. -/
def Rule.listing (r : Rule) : String :=
  Text.padRight 11 r.category.name ++ " p" ++ Decimal.ofNat r.priority ++ " " ++
    Text.padRight 22 ("|".intercalate r.symbols) ++ " " ++
    ", ".intercalate (r.edits.map (·.text)) ++
    (if r.requires = [] then ""
      else "  requires " ++ ", ".intercalate (r.requires.map (·.text))) ++
    (if r.excludes = [] then ""
      else "  excludes " ++ ", ".intercalate (r.excludes.map (·.name))) ++
    if r.isDefault then "  (default)" else ""

def Lexicon.listing (lx : Lexicon) : List String := lx.rules.map (·.listing)

end ChordSymbol
