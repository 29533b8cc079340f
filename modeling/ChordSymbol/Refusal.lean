import ChordSymbol.Rule

/-! Why a chord symbol or a table of rules is refused, and in which words. -/
namespace ChordSymbol

/-- What is wrong with an entry of a rule table. -/
inductive Defect
  | malformedDocument
  | bothEditShapes
  | noSymbols
  | noEdits
  | secondDefault (existing : String)
  | defaultNotQuality
  | emptySymbol
  | symbolTaken (symbol owner : String)
  | unknownCategory (category requirement : String)
  | unmeetable (requirement : Requirement)
  | missingRule (index : Nat)
  deriving DecidableEq

def Defect.message : Defect → String
  | malformedDocument => "malformed document"
  | bothEditShapes => "give either 'operation' or 'operations', not both"
  | noSymbols => "rule has no symbols"
  | noEdits => "rule has no operations"
  | secondDefault existing => s!"'{existing}' is already the default quality"
  | defaultNotQuality => "only a quality rule can be the default"
  | emptySymbol => "empty alias"
  | symbolTaken symbol owner => s!"alias '{symbol}' is already used by '{owner}'"
  | unknownCategory category requirement =>
    s!"unknown category '{category}' in requirement '{requirement}'"
  | unmeetable requirement => s!"requirement '{requirement.text}' matches no other rule"
  | missingRule index => "token refers to missing rule #" ++ Decimal.ofNat index

/-- Why a chord symbol has no reading. -/
inductive Refusal
  | invalidRoot (input : String)
  | unrecognizedModifier (remainder : String)
  | conflictingQuality (symbol existing : String)
  | conflictingRole (role : Role) (symbol existing : String)
  | excludedCombination (symbol : String) (category : Category)
  | missingRequirement (symbol : String) (requirement : Requirement)
  | unnamedInterval (role : Role) (semitones : Int)
  | ruleTable (entry : String) (defect : Defect)
  deriving DecidableEq

def Refusal.message : Refusal → String
  | invalidRoot input => s!"Invalid root in '{input}': expected a note letter A-G"
  | unrecognizedModifier remainder => s!"Unrecognized modifier at '{remainder}'"
  | conflictingQuality symbol existing =>
    s!"Cannot combine '{symbol}' with existing quality '{existing}'"
  | conflictingRole role symbol existing =>
    s!"Conflicting modifiers for {role.name}: '{symbol}' and '{existing}'"
  | excludedCombination symbol category =>
    s!"'{symbol}' cannot be combined with {category.name} modifiers"
  | missingRequirement symbol requirement =>
    s!"'{symbol}' requires {requirement.text} to be present"
  | unnamedInterval role semitones =>
    s!"No interval name for {Decimal.ofInt semitones} semitones ({role.name})"
  | ruleTable entry defect => s!"Invalid rule table entry '{entry}': {defect.message}"

end ChordSymbol
