import ChordSymbol.Document.Plain

/-! Documents as trees. A scalar keeps its text as written; what a plain one stands for (a number, a
flag, nothing) is settled by what the reader of the tree asks for. -/
namespace ChordSymbol.Document

inductive Node
  | scalar (plain : Bool) (text : String)
  | sequence (items : List Node)
  | mapping (entries : List (Node × Node))

namespace Node

/-- What stands where nothing is written. -/
def nothing : Node := scalar true ""

def isNull : Node → Bool
  | scalar true s => Plain.isNull s
  | _ => false

/-- Any scalar is a text, also one that looks like a number or a flag. -/
def text? : Node → Option String
  | scalar _ s => some s
  | _ => none

/-- Where a list is asked for, nothing is the empty list. -/
def items? : Node → Option (List Node)
  | sequence xs => some xs
  | scalar true "" => some []
  | _ => none

def entry? (e : Node × Node) : Option (String × Node) := e.1.text?.map (·, e.2)

/-- Where a mapping is asked for, nothing is the empty mapping. Keys are texts. -/
def entries? : Node → Option (List (String × Node))
  | mapping es => es.mapM entry?
  | scalar true "" => some []
  | _ => none

def flag? : Node → Option Bool
  | scalar true s => Plain.flag? s
  | _ => none

/-- A whole number that has no minus sign. -/
def natural? : Node → Option Nat
  | scalar true s => (Plain.whole? s).bind (·.natural?)
  | _ => none

/-- A value that may be absent. -/
def optional {α : Type} (f : Node → Option α) (n : Node) : Option (Option α) :=
  if n.isNull then some none else (f n).map some

/-- A list with items of one kind. -/
def list? {α : Type} (f : Node → Option α) (n : Node) : Option (List α) := do
  let xs ← n.items?
  xs.mapM f

end Node

section Entries

variable {κ ν : Type} [DecidableEq κ]

/-- The value of a key; written twice, a key has no value that could be told. -/
def lookup? (key : κ) (entries : List (κ × ν)) : Option (Option ν) :=
  match entries.filter (·.1 = key) with
  | [] => some none
  | [(_, v)] => some (some v)
  | _ => none

/-- The value of a key that has to be there. -/
def required? {α : Type} (key : κ) (f : ν → Option α) (entries : List (κ × ν)) : Option α := do
  let v ← lookup? key entries
  v.bind f

/-- The value of a key, or `fallback` without it. -/
def withDefault? {α : Type} (key : κ) (f : ν → Option α) (fallback : α)
    (entries : List (κ × ν)) : Option α := do
  match ← lookup? key entries with
  | some v => f v
  | none => return fallback

end Entries

/-- The value of a key that may be missing or absent. -/
def optional? {α : Type} (key : String) (f : Node → Option α) (entries : List (String × Node)) :
    Option (Option α) :=
  withDefault? key (Node.optional f) none entries

end ChordSymbol.Document
