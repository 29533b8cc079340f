import ChordSymbol.Role
import ChordSymbol.Semitones
import ChordSymbol.Text.Decimal

/-! Primitive edits of one role of a chord. -/
namespace ChordSymbol

/-- `replace` and `add` carry the new value in semitones, `modify` the difference. -/
inductive Edit
  | replace (role : Role) (value : Int)
  | modify (role : Role) (delta : Int)
  | add (role : Role) (value : Int)
  | remove (role : Role)
  deriving DecidableEq

namespace Edit

/-- An edit without its role and value. -/
inductive Kind
  | replace | modify | add | remove
  deriving DecidableEq

def role : Edit → Role
  | replace r _ | modify r _ | add r _ | remove r => r

def kind : Edit → Kind
  | replace .. => .replace
  | modify .. => .modify
  | add .. => .add
  | remove _ => .remove

/-- The number an edit carries, if it carries one. -/
def amount? : Edit → Option Int
  | replace _ x | modify _ x | add _ x => some x
  | remove _ => none

/-- What the edit carries is held. -/
def Held (e : Edit) : Prop := ∀ x, e.amount? = some x → Semitones.Held x

instance (e : Edit) : Decidable e.Held :=
  inferInstanceAs (Decidable (∀ x, e.amount? = some x → Semitones.Held x))

def Kind.name : Kind → String
  | replace => "replace"
  | modify => "modify"
  | add => "add"
  | remove => "remove"

def text : Edit → String
  | replace r x => s!"replace {r.name} = {Decimal.ofInt x}"
  | modify r d => s!"modify {r.name} {Decimal.signed d}"
  | add r x => s!"add {r.name} = {Decimal.ofInt x}"
  | remove r => s!"remove {r.name}"

end Edit
end ChordSymbol
