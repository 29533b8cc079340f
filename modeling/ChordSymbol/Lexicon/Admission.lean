import ChordSymbol.Lexicon.Basic
import ChordSymbol.Text.Lowercase

/-! Which tables of rules are lexicons. Rules are checked in order, and each requirement against
all other rules after that. Spellings that differ in letter case alone share one place, unless both
rules insist on case. -/
namespace ChordSymbol.Lexicon

/-- A spelling already in the table. -/
structure Taken where
  symbol : String
  owner : String
  caseSensitive : Bool
  deriving DecidableEq

def Taken.clashesWith (t : Taken) (r : Rule) (s : String) : Bool :=
  Text.lowercase t.symbol = Text.lowercase s && (t.symbol = s || !r.caseSensitive || !t.caseSensitive)

def taken (r : Rule) (symbols : List String) : List Taken :=
  symbols.map fun s => ⟨s, r.symbol, r.caseSensitive⟩

/-- The first of `symbols` that rule `r` may not have, given those in the table before it. -/
def symbolDefect? (r : Rule) (before : List Taken) : List String → Option Defect
  | [] => none
  | s :: ss =>
    if s = "" then some .emptySymbol
    else
      match before.find? (·.clashesWith r s) with
      | some t => some (.symbolTaken s t.owner)
      | none => symbolDefect? r (before ++ taken r [s]) ss

def defaultDefect? (r : Rule) (existing : Option String) : Option Defect :=
  if r.isDefault then
    match existing with
    | some d => some (.secondDefault d)
    | none => if r.category = .quality then none else some .defaultNotQuality
  else none

def ruleDefect? (before : List Taken) (existing : Option String) (r : Rule) : Option Defect :=
  if r.symbols = [] then some .noSymbols
  else if r.edits = [] then some .noEdits
  else
    match defaultDefect? r existing with
    | some d => some d
    | none => symbolDefect? r before r.symbols

/-- The name under which a defective rule is reported. -/
def entryName (symbols : List String) : String := symbols.headD "<unnamed>"

def rulesDefect? (before : List Taken) (existing : Option String) : List Rule → Option Refusal
  | [] => none
  | r :: rs =>
    match ruleDefect? before existing r with
    | some d => some (.ruleTable (entryName r.symbols) d)
    | none =>
      rulesDefect? (before ++ taken r r.symbols) (if r.isDefault then some r.symbol else existing) rs

/-- A spelling with a dot was meant to name a category; all else must be provided by some other
rule under one of its spellings. -/
def requirementDefect? (others : List Rule) (q : Requirement) : Option Defect :=
  match q with
  | .symbol s =>
    match Text.cut? '.' s with
    | some (front, _) => some (.unknownCategory front s)
    | none => if others.any fun o => o.symbols.any (q.isMetBy o) then none else some (.unmeetable q)
  | _ => if others.any fun o => o.symbols.any (q.isMetBy o) then none else some (.unmeetable q)

def requirementsDefect? (rules : List Rule) : Option Refusal :=
  rules.zipIdx.findSome? fun (r, i) =>
    r.requires.findSome? fun q =>
      (requirementDefect? (rules.eraseIdx i) q).map (.ruleTable r.symbol ·)

/-- The table as it stands, or its first defect. -/
def ofRules (rules : List Rule) : Except Refusal Lexicon :=
  match rulesDefect? [] none rules with
  | some e => .error e
  | none =>
    match requirementsDefect? rules with
    | some e => .error e
    | none => .ok ⟨rules⟩

end ChordSymbol.Lexicon
