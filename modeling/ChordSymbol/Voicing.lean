import ChordSymbol.Edit

/-! Voicings: which roles of a chord sound, and how many semitones above the root.
Values stay uncompressed (a ninth is 14); only naming reduces them to one octave. -/
namespace ChordSymbol

/-- A sparse map from roles to semitones. -/
@[ext] structure Voicing where
  get? : Role → Option Int

namespace Voicing

def empty : Voicing := ⟨fun _ => none⟩

def set (v : Voicing) (r : Role) (x : Int) : Voicing :=
  ⟨fun q => if q = r then some x else v.get? q⟩

def erase (v : Voicing) (r : Role) : Voicing :=
  ⟨fun q => if q = r then none else v.get? q⟩

@[simp] theorem get?_empty (q : Role) : empty.get? q = none := rfl

@[simp] theorem get?_set (v : Voicing) (r q : Role) (x : Int) :
    (v.set r x).get? q = if q = r then some x else v.get? q := rfl

@[simp] theorem get?_erase (v : Voicing) (r q : Role) :
    (v.erase r).get? q = if q = r then none else v.get? q := rfl

instance : DecidableEq Voicing := fun v w =>
  decidable_of_iff (∀ r ∈ Role.all, v.get? r = w.get? r)
    ⟨fun h => Voicing.ext (funext fun r => h r (Role.mem_all r)), fun h _ _ => h ▸ rfl⟩

def rootOnly : Voicing := empty.set .root 0

def majorTriad : Voicing := (rootOnly.set .third 4).set .fifth 7

/-- A later entry for a role wins. -/
def ofList (entries : List (Role × Int)) : Voicing :=
  entries.foldl (fun v e => v.set e.1 e.2) empty

/-- The roles that sound, lowest first, with their values. -/
def toList (v : Voicing) : List (Role × Int) :=
  Role.all.filterMap fun r => (v.get? r).map (r, ·)

@[simp] theorem mem_toList {v : Voicing} {r : Role} {x : Int} :
    (r, x) ∈ v.toList ↔ v.get? r = some x := by
  simp [toList]

def semitones (v : Voicing) : List Int := v.toList.map (·.2)

def size (v : Voicing) : Nat := v.toList.length

def contains (v : Voicing) (r : Role) : Bool := (v.get? r).isSome

/-- The silent roles below `r`, lowest first. -/
def missingBelow (v : Voicing) (r : Role) : List Role := r.below.filter (!v.contains ·)

theorem mem_missingBelow {v : Voicing} {q r : Role} :
    q ∈ v.missingBelow r ↔ q < r ∧ v.get? q = none := by
  simp [missingBelow, contains, Role.mem_below]

/-- Gives each of `roles` its natural value. -/
def fill (v : Voicing) (roles : List Role) : Voicing := roles.foldl (fun v r => v.set r r.natural) v

theorem get?_fill (v : Voicing) (roles : List Role) (q : Role) :
    (v.fill roles).get? q = if q ∈ roles then some q.natural else v.get? q := by
  induction roles generalizing v with
  | nil => simp [fill]
  | cons r rs ih =>
    have h := ih (v.set r r.natural)
    by_cases hq : q = r <;> simp_all [fill]

/-- Only `replace` fills the silent roles below its own; `modify` starts a silent role from its
natural value. -/
def apply (v : Voicing) : Edit → Voicing
  | .replace r x => (v.fill (v.missingBelow r)).set r x
  | .modify r d => v.set r (Semitones.sum ((v.get? r).getD r.natural) d)
  | .add r x => v.set r x
  | .remove r => v.erase r

/-- The roles that `apply` fills besides the edit's own. -/
def backfilled (v : Voicing) : Edit → List Role
  | .replace r _ => v.missingBelow r
  | _ => []

def applyAll (v : Voicing) (edits : List Edit) : Voicing := edits.foldl apply v

@[simp] theorem applyAll_nil (v : Voicing) : v.applyAll [] = v := rfl

@[simp] theorem applyAll_cons (v : Voicing) (e : Edit) (es : List Edit) :
    v.applyAll (e :: es) = (v.apply e).applyAll es := rfl

end Voicing
end ChordSymbol
