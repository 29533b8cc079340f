import ChordSymbol.Document.Node

/-! Values: what trees stand for where scalars are told apart before it is known what is asked for. -/
namespace ChordSymbol.Document

inductive Value
  | nothing
  | flag (b : Bool)
  | whole (n : Whole)
  | decimal
  | text (s : String)
  | list (items : List Value)
  | mapping (entries : List (Value × Value))

namespace Value

/-- A whole number has a value if a word of 64 bits holds it, and none if it takes one of 128. What is
longer still is decimal, or a text in other bases than ten. -/
def ofPlain? (s : String) : Option Value :=
  if Plain.isNull s then some nothing
  else
    match Plain.flag? s, (Plain.whole? s).filter (·.fits 128) with
    | some b, _ => some (flag b)
    | none, some n => if n.fits 64 then some (whole n) else none
    | none, none => some (if Plain.isDecimal s then decimal else text s)

/-- The value of a tree with at most `levels` lists and mappings inside one another. -/
def ofNode? : (levels : Nat) → Node → Option Value
  | _, .scalar true s => ofPlain? s
  | _, .scalar false s => some (text s)
  | 0, _ => none
  | levels + 1, .sequence xs => do return list (← xs.mapM (ofNode? levels))
  | levels + 1, .mapping es => do
    return mapping (← es.mapM fun e => do return (← ofNode? levels e.1, ← ofNode? levels e.2))

def text? : Value → Option String
  | text s => some s
  | _ => none

def natural? : Value → Option Nat
  | whole n => n.natural?
  | _ => none

def integer? : Value → Option Int
  | whole n => some n.toInt
  | _ => none

end Value
end ChordSymbol.Document
