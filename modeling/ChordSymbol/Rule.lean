import ChordSymbol.Edit
import ChordSymbol.Text.Cut

/-! Modifier rules: the spellings of a modifier, the edits it makes, and the company it needs
or refuses. -/
namespace ChordSymbol

/-- A companion that a modifier needs: any modifier of a category, one spelling of a modifier, or
one spelling within a category. -/
inductive Requirement
  | category (category : Category)
  | symbol (symbol : String)
  | qualified (category : Category) (symbol : String)
  deriving DecidableEq

namespace Requirement

def text : Requirement → String
  | category c => c.name
  | symbol s => s
  | qualified c s => c.name ++ "." ++ s

/-- A category name is a category; `extension.7` names the spelling `7` within a category; all else
is a spelling, dots included. -/
def ofText (s : String) : Requirement :=
  match Category.ofName? s with
  | some c => category c
  | none =>
    match Text.cut? '.' s with
    | none => symbol s
    | some (front, tail) =>
      if tail = "" then symbol s
      else
        match Category.ofName? front with
        | some c => qualified c tail
        | none => symbol s

end Requirement

structure Rule where
  /-- The spellings of the modifier; the first names the rule. -/
  symbols : List String
  category : Category
  edits : List Edit
  priority : Nat
  requires : List Requirement
  excludes : List Category
  /-- The quality of a chord that spells none. -/
  isDefault : Bool
  caseSensitive : Bool
  deriving DecidableEq

namespace Rule

/-- A rule with its category's priority, no conditions, and spellings in any letter case. -/
def basic (category : Category) (symbols : List String) (edits : List Edit) : Rule where
  symbols := symbols
  category := category
  edits := edits
  priority := category.priority
  requires := []
  excludes := []
  isDefault := false
  caseSensitive := false

/-- The spelling that names the rule. -/
def symbol (r : Rule) : String := r.symbols.headD ""

def hasSymbol (r : Rule) (s : String) : Bool := r.symbols.contains s

end Rule

namespace Requirement

/-- Whether a modifier of rule `r`, spelled `spelling`, is the companion asked for. -/
def isMetBy (q : Requirement) (r : Rule) (spelling : String) : Bool :=
  match q with
  | category c => r.category = c
  | symbol s => r.hasSymbol s || spelling = s
  | qualified c s => r.category = c && (r.hasSymbol s || spelling = s)

end Requirement
end ChordSymbol
