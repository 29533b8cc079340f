import ChordSymbol.Document.Reader
import ChordSymbol.Document.Value
import ChordSymbol.Lexicon.Admission

/-! Lexicons written as documents: a list `rules`, each a mapping. A rule gives one edit or a list
of edits. Keys that mean nothing here are passed over. -/
namespace ChordSymbol

open Document

namespace Category

def ofNode? (n : Node) : Option Category := do ofName? (← n.text?)

end Category

namespace Role

/-- A role by its name, or by the number of roles below it. -/
def ofKey? : Value → Option Role
  | .text s => ofName? s
  | v => do all[← v.natural?]?

/-- A role is its name, or a mapping of one key that stands for it to nothing. -/
def ofValue? : Value → Option Role
  | .text s => ofName? s
  | .mapping [(key, .nothing)] | .mapping [(key, .mapping [])] => ofKey? key
  | _ => none

end Role

namespace Edit

/-- What the keys of an edit may ask for. -/
inductive Field
  | kind | role | amount | ignored
  deriving DecidableEq

/-- The role and the amount are the fields 0 and 1 beside their names; the kind has a name only. -/
def Field.ofKey? : Value → Option Field
  | .text "type" => some kind
  | .text "role" => some role
  | .text "value" => some amount
  | .text _ => some ignored
  | v => do
    match ← v.natural? with
    | 0 => return role
    | 1 => return amount
    | _ => return ignored

/-- The numbers that an edit may carry. -/
def amountOfValue? (v : Value) : Option Int := v.integer?.filter (Semitones.Held ·)

def ofParts? (kind : String) (role : Option Role) (amount : Option Int) : Option Edit :=
  match kind with
  | "replace" => do return .replace (← role) (← amount)
  | "modify" => do return .modify (← role) (← amount)
  | "add" => do return .add (← role) (← amount)
  | "remove" => role.map .remove
  | _ => none

/-- An edit is a mapping, or the list of its type, role and value. -/
def ofValue? : Value → Option Edit
  | .list [.text "remove", role] => (Role.ofValue? role).map .remove
  | .list [.text kind, role, amount] => do
    guard (kind ≠ "remove")
    ofParts? kind (Role.ofValue? role) (amountOfValue? amount)
  | .mapping es => do
    let fields ← es.mapM fun e => do return (← Field.ofKey? e.1, e.2)
    let kind ← required? .kind Value.text? fields
    ofParts? kind (required? .role Role.ofValue? fields) (required? .amount amountOfValue? fields)
  | _ => none

def ofNode? (levels : Nat) (n : Node) : Option Edit := do ofValue? (← Value.ofNode? levels n)

end Edit

/-- A rule as written, before its edits are settled. -/
structure RuleEntry where
  symbols : List String
  category : Category
  edit : Option Edit
  edits : List Edit
  priority : Option Nat
  requires : List Requirement
  excludes : List Category
  isDefault : Bool
  caseSensitive : Bool
  deriving DecidableEq

namespace RuleEntry

/-- How many lists and mappings may stand inside one another down to the last one of an edit, in what
is ignored of it too. -/
def maxLevels : Nat := 128

/-- A document, its rules and a rule are three levels around an edit, and a list of edits is one more. -/
def ofNode? (n : Node) : Option RuleEntry := do
  let es ← n.entries?
  return {
    symbols := ← required? "symbols" (Node.list? Node.text?) es
    category := ← required? "category" Category.ofNode? es
    edit := ← optional? "operation" (Edit.ofNode? (maxLevels - 3)) es
    edits := ← withDefault? "operations" (Node.list? (Edit.ofNode? (maxLevels - 4))) [] es
    priority := ← optional? "priority" (fun n => n.natural?.filter (· ≤ 255)) es
    requires := ← withDefault? "requires" (Node.list? fun n => n.text?.map .ofText) [] es
    excludes := ← withDefault? "excludes" (Node.list? Category.ofNode?) [] es
    isDefault := ← withDefault? "is-default" Node.flag? false es
    caseSensitive := ← withDefault? "case-sensitive" Node.flag? false es }

/-- The rule of an entry that gives its edits in one way only. -/
def rule (e : RuleEntry) : Except Refusal Rule :=
  if e.edit.isSome && e.edits ≠ [] then
    .error (.ruleTable (Lexicon.entryName e.symbols) .bothEditShapes)
  else
    .ok {
      symbols := e.symbols
      category := e.category
      edits := match e.edit with
        | some edit => [edit]
        | none => e.edits
      priority := e.priority.getD e.category.priority
      requires := e.requires
      excludes := e.excludes
      isDefault := e.isDefault
      caseSensitive := e.caseSensitive }

end RuleEntry

namespace Lexicon

def entriesOfNode? (n : Node) : Option (List RuleEntry) := do
  withDefault? "rules" (Node.list? RuleEntry.ofNode?) [] (← n.entries?)

def malformed : Refusal := .ruleTable "<document>" .malformedDocument

/-- The lexicon that a tree describes. All entries are settled before the table is checked. -/
def ofNode (n : Node) : Except Refusal Lexicon :=
  match entriesOfNode? n with
  | none => .error malformed
  | some es => do ofRules (← es.mapM (·.rule))

def ofDocument (source : String) : Except Refusal Lexicon :=
  match read? source with
  | none => .error malformed
  | some n => ofNode n

end Lexicon
end ChordSymbol
