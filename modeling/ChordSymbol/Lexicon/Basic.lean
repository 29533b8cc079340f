import ChordSymbol.Token

/-! Lexicons: ordered tables of modifier rules. -/
namespace ChordSymbol

/-- The rules that a chord symbol is read by. A token names its rule by the place in the table. -/
structure Lexicon where
  rules : List Rule
  deriving DecidableEq

/-- A token together with the rule it names. -/
structure Modifier where
  token : Token
  rule : Rule
  deriving DecidableEq

namespace Lexicon

def rule? (lx : Lexicon) (index : Nat) : Option Rule := lx.rules[index]?

def size (lx : Lexicon) : Nat := lx.rules.length

/-- The first rule with the spelling `s`, letter case included. -/
def find? (lx : Lexicon) (s : String) : Option Rule := lx.rules.find? (·.hasSymbol s)

/-- The quality of a chord that spells none. -/
def default? (lx : Lexicon) : Option Rule := lx.rules.find? (·.isDefault)

def patterns (lx : Lexicon) : List Pattern := Pattern.ofRules lx.rules

/-- The patterns that stand for some text; of an admitted table, all of them. -/
def spelledPatterns (lx : Lexicon) : List Pattern.Spelled := lx.patterns.filterMap Pattern.spelled?

def tokenize (lx : Lexicon) (suffix : String) : Except Refusal (List Token) :=
  Token.scan lx.spelledPatterns suffix.toList

def modifier (lx : Lexicon) (t : Token) : Except Refusal Modifier :=
  match lx.rule? t.rule with
  | some r => .ok ⟨t, r⟩
  | none => .error (.ruleTable t.symbol (.missingRule t.rule))

/-- Every token with its rule; the first token without one is the refusal. -/
def modifiers (lx : Lexicon) (ts : List Token) : Except Refusal (List Modifier) :=
  ts.mapM lx.modifier

end Lexicon

namespace Modifier

/-- Modifiers in the order in which they take effect: by priority, else as written. -/
def inOrder (ms : List Modifier) : List Modifier :=
  ms.mergeSort fun a b => a.rule.priority ≤ b.rule.priority

end Modifier
end ChordSymbol
