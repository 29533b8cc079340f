/-! The seven roles of a chord, from the root up, and the categories of modifier. -/
namespace ChordSymbol

/-- A slot of a chord that at most one tone fills. -/
inductive Role
  | root | third | fifth | seventh | ninth | eleventh | thirteenth
  deriving DecidableEq

namespace Role

/-- Every role, lowest first. -/
def all : List Role := [root, third, fifth, seventh, ninth, eleventh, thirteenth]

/-- The number of roles below. -/
def rank : Role → Nat
  | root => 0
  | third => 1
  | fifth => 2
  | seventh => 3
  | ninth => 4
  | eleventh => 5
  | thirteenth => 6

instance : LT Role := ⟨fun p q => p.rank < q.rank⟩

instance (p q : Role) : Decidable (p < q) := inferInstanceAs (Decidable (p.rank < q.rank))

/-- The roles below `r`, lowest first. -/
def below (r : Role) : List Role := all.filter (· < r)

/-- Semitones above the root in the major scale: the value of a role that is filled in unasked. -/
def natural : Role → Int
  | root => 0
  | third => 4
  | fifth => 7
  | seventh => 11
  | ninth => 14
  | eleventh => 17
  | thirteenth => 21

def name : Role → String
  | root => "root"
  | third => "third"
  | fifth => "fifth"
  | seventh => "seventh"
  | ninth => "ninth"
  | eleventh => "eleventh"
  | thirteenth => "thirteenth"

def ofName? (s : String) : Option Role := all.find? (·.name = s)

@[simp] theorem mem_all (r : Role) : r ∈ all := by cases r <;> decide

@[simp] theorem ofName?_name (r : Role) : ofName? r.name = some r := by cases r <;> decide

theorem mem_below {p r : Role} : p ∈ below r ↔ p < r := by simp [below]

end Role

/-- What a modifier does to a chord, broadly. -/
inductive Category
  | quality | suspension | extension | addition | alteration
  deriving DecidableEq

namespace Category

def all : List Category := [quality, suspension, extension, addition, alteration]

def name : Category → String
  | quality => "quality"
  | suspension => "suspension"
  | extension => "extension"
  | addition => "addition"
  | alteration => "alteration"

def ofName? (s : String) : Option Category := all.find? (·.name = s)

/-- Lower priorities are applied first, so an alteration sees what the others filled. -/
def priority : Category → Nat
  | quality | suspension => 1
  | extension => 2
  | addition => 3
  | alteration => 4

/-- Qualities and suspensions compete for the one place that settles a chord's character. -/
def isQualityClass : Category → Bool
  | quality | suspension => true
  | _ => false

@[simp] theorem mem_all (c : Category) : c ∈ all := by cases c <;> decide

@[simp] theorem ofName?_name (c : Category) : ofName? c.name = some c := by cases c <;> decide

theorem name_of_ofName? {s : String} {c : Category} (h : ofName? s = some c) : c.name = s := by
  simpa using List.find?_some h

end Category

end ChordSymbol
