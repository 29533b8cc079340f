/-! Cutting a text in two at the first occurrence of a character. -/
namespace ChordSymbol.Text

/-- What stands before and after the first `sep`, which is dropped; none when there is no `sep`. -/
def cutChars? (sep : Char) : List Char → Option (List Char × List Char)
  | [] => none
  | c :: cs => if c = sep then some ([], cs) else (cutChars? sep cs).map fun p => (c :: p.1, p.2)

def cut? (sep : Char) (s : String) : Option (String × String) :=
  (cutChars? sep s.toList).map fun p => (String.ofList p.1, String.ofList p.2)

theorem cutChars?_eq_some {sep : Char} {cs before after : List Char} :
    cutChars? sep cs = some (before, after) ↔ cs = before ++ sep :: after ∧ sep ∉ before := by
  induction cs generalizing before with
  | nil => simp [cutChars?]
  | cons c cs ih =>
    by_cases h : c = sep
    · cases before with
      | nil => simp [cutChars?, h]
      | cons b bs => simp [cutChars?, h]; grind
    · cases before with
      | nil => simp [cutChars?, h]
      | cons b bs => simp [cutChars?, h, ih]; grind

theorem cutChars?_eq_none {sep : Char} {cs : List Char} :
    cutChars? sep cs = none ↔ sep ∉ cs := by
  induction cs with
  | nil => simp [cutChars?]
  | cons c cs ih =>
    by_cases h : c = sep
    · simp [cutChars?, h]
    · simp [cutChars?, h, ih, Ne.symm h]

theorem cut?_eq_some {sep : Char} {s front tail : String} :
    cut? sep s = some (front, tail) ↔
      s.toList = front.toList ++ sep :: tail.toList ∧ sep ∉ front.toList := by
  rw [← cutChars?_eq_some]
  unfold cut?
  cases cutChars? sep s.toList with
  | none => simp
  | some p => simp [Prod.ext_iff, ← String.toList_inj]

theorem cut?_eq_none {sep : Char} {s : String} : cut? sep s = none ↔ sep ∉ s.toList := by
  rw [← cutChars?_eq_none, cut?, Option.map_eq_none_iff]

end ChordSymbol.Text
