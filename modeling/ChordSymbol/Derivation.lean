import ChordSymbol.Lexicon.Basic
import ChordSymbol.Voicing

/-! Derivations: how a list of modifiers yields a voicing, edit by edit. -/
namespace ChordSymbol

/-- One edit as it took effect, with the value of its role before and after. -/
structure Step where
  /-- The spelling of the modifier that made the edit. -/
  symbol : String
  edit : Edit
  before : Option Int
  after : Option Int
  backfilled : List Role
  deriving DecidableEq

/-- A voicing and the edits that led to it. -/
structure Derivation where
  voicing : Voicing
  steps : List Step
  deriving DecidableEq

namespace Step

def ofEdit (v : Voicing) (symbol : String) (e : Edit) : Step where
  symbol := symbol
  edit := e
  before := v.get? e.role
  after := (v.apply e).get? e.role
  backfilled := v.backfilled e

/-- The steps of a run of edits from `v` on. -/
def ofEdits (v : Voicing) : List (String × Edit) → List Step
  | [] => []
  | (s, e) :: es => ofEdit v s e :: ofEdits (v.apply e) es

end Step

namespace Modifier

/-- The edits of `ms` in order of effect, each with its modifier's spelling. -/
def edits (ms : List Modifier) : List (String × Edit) :=
  (inOrder ms).flatMap fun m => m.rule.edits.map (m.token.symbol, ·)

end Modifier

namespace Lexicon

/-- The chord that names no quality: the default rule's edits of a bare root, or a major triad. -/
def implied (lx : Lexicon) : Voicing :=
  match lx.default? with
  | some r => Voicing.rootOnly.applyAll r.edits
  | none => .majorTriad

/-- Where the edits of `ms` start. -/
def start (lx : Lexicon) (ms : List Modifier) : Voicing :=
  if ms.any (·.rule.category.isQualityClass) then .rootOnly else lx.implied

/-- What the tokens make of the implied chord; whether they go together is not asked. -/
def derive (lx : Lexicon) (ts : List Token) : Except Refusal Derivation :=
  match lx.modifiers ts with
  | .error e => .error e
  | .ok ms =>
    let es := Modifier.edits ms
    .ok ⟨(lx.start ms).applyAll (es.map (·.2)), Step.ofEdits (lx.start ms) es⟩

end Lexicon
end ChordSymbol
