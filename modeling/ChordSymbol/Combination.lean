import ChordSymbol.Lexicon.Basic

/-! Which modifiers go together. Each is checked against those kept before it; when all are kept,
the roles they edit are replayed in order of effect, and the companions they need are looked for. -/
namespace ChordSymbol.Combination

/-- One quality or suspension to a chord. -/
def qualityConflict? (kept : List Modifier) (m : Modifier) : Option Refusal :=
  if m.rule.category.isQualityClass then
    (kept.find? (·.rule.category.isQualityClass)).map fun p =>
      .conflictingQuality m.token.symbol p.token.symbol
  else none

/-- The refusal between a kept modifier and a new one; the new one's own exclusions speak first. -/
def exclusion? (m p : Modifier) : Option Refusal :=
  if m.rule.excludes.contains p.rule.category then
    some (.excludedCombination m.token.symbol p.rule.category)
  else if p.rule.excludes.contains m.rule.category then
    some (.excludedCombination p.token.symbol m.rule.category)
  else none

/-- Keeps one more token, or says why not. -/
def keep (lx : Lexicon) (kept : List Modifier) (t : Token) : Except Refusal (List Modifier) :=
  match lx.modifier t with
  | .error e => .error e
  | .ok m =>
    match qualityConflict? kept m with
    | some e => .error e
    | none =>
      match kept.findSome? (exclusion? m) with
      | some e => .error e
      | none => .ok (kept ++ [m])

/-- The latest edit of a role. -/
structure LastEdit where
  kind : Edit.Kind
  category : Category
  symbol : String
  deriving DecidableEq

/-- Whether a later modifier of `category` may make an edit of `kind`. Only an alteration may: it
adjusts what an extension or an addition wrote, or what was merely added, and nothing once removed. -/
def LastEdit.allows (t : LastEdit) (category : Category) (kind : Edit.Kind) : Bool :=
  category = .alteration &&
    match t.kind with
    | .replace | .modify => t.category = .extension || t.category = .addition
    | .add => kind ≠ .add
    | .remove => false

/-- The latest edit of each role so far. -/
abbrev Ledger := Role → Option LastEdit

/-- The first edit of `m` that the ledger does not keep. -/
def roleConflict? (ledger : Ledger) (m : Modifier) : Option Refusal :=
  m.rule.edits.findSome? fun e =>
    match ledger e.role with
    | none => none
    | some t =>
      if t.allows m.rule.category e.kind then none
      else some (.conflictingRole e.role m.token.symbol t.symbol)

def record (ledger : Ledger) (m : Modifier) : Ledger :=
  m.rule.edits.foldl
    (fun l e q => if q = e.role then some ⟨e.kind, m.rule.category, m.token.symbol⟩ else l q) ledger

/-- A modifier's edits are all checked before any of them is recorded. -/
def replay (ledger : Ledger) : List Modifier → Option Refusal
  | [] => none
  | m :: ms =>
    match roleConflict? ledger m with
    | some e => some e
    | none => replay (record ledger m) ms

/-- The first companion asked for that no modifier at another place provides. -/
def missing? (kept : List Modifier) : Option Refusal :=
  kept.zipIdx.findSome? fun (m, i) =>
    m.rule.requires.findSome? fun q =>
      if (kept.eraseIdx i).any fun o => q.isMetBy o.rule o.token.symbol then none
      else some (.missingRequirement m.token.symbol q)

/-- The kept tokens in the order written, once nothing speaks against the whole. -/
def finish (kept : List Modifier) : Except Refusal (List Token) :=
  match replay (fun _ => none) (Modifier.inOrder kept) with
  | some e => .error e
  | none =>
    match missing? kept with
    | some e => .error e
    | none => .ok (kept.map (·.token))

/-- Keeps every token or stops at the first refusal. -/
def keepAll (lx : Lexicon) (kept : List Modifier) : List Token → Except Refusal (List Modifier)
  | [] => .ok kept
  | t :: ts =>
    match keep lx kept t with
    | .error e => .error e
    | .ok kept => keepAll lx kept ts

/-- Offers every token in turn and keeps those that are admitted. -/
def keepSome (lx : Lexicon) (kept : List Modifier) : List Token → List Modifier
  | [] => kept
  | t :: ts =>
    match keep lx kept t with
    | .error _ => keepSome lx kept ts
    | .ok kept => keepSome lx kept ts

/-- What is said of each token when all are offered in turn. -/
def verdicts (lx : Lexicon) (kept : List Modifier) : List Token → List (Option Refusal)
  | [] => []
  | t :: ts =>
    match keep lx kept t with
    | .error e => some e :: verdicts lx kept ts
    | .ok kept => none :: verdicts lx kept ts

end ChordSymbol.Combination

namespace ChordSymbol

/-- The tokens themselves, if they go together. -/
def Lexicon.validate (lx : Lexicon) (ts : List Token) : Except Refusal (List Token) :=
  match Combination.keepAll lx [] ts with
  | .error e => .error e
  | .ok kept => Combination.finish kept

end ChordSymbol
