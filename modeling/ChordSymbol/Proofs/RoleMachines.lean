import ChordSymbol.Proofs.ToneNames

/-! A voicing under any run of edits: seven machines side by side, one to a role, none of which asks
about another. Which roles an edit fills can be read off the machines, and so can which two edits of
different roles change places. -/
namespace ChordSymbol

namespace Edit

variable {e f : Edit}

theorem undoes_iff : e.Undoes f ↔ ∃ p r x, p < r ∧ e = .remove p ∧ f = .replace r x := by
  cases e with
  | remove p =>
    cases f with
    | replace r x => simp [Undoes]
    | modify | add | remove => simp [Undoes]
  | replace | modify | add => simp [Undoes]

/-- What was emptied is filled again, and what was filled is emptied. -/
theorem effect_of_undoes (h : e.Undoes f) (x : Option Int) :
    effect e.role (effect e.role x e) f = some e.role.natural ∧
      effect e.role (effect e.role x f) e = none := by
  obtain ⟨p, r, y, hpr, rfl, rfl⟩ := undoes_iff.1 h
  have hne := Role.ne_of_lt hpr
  simp [effect, role, hpr, hne.symm]

end Edit

namespace Voicing

variable {v : Voicing} {e f : Edit} {q : Role}

theorem get?_of_undoes (h : e.Undoes f) (v : Voicing) :
    ((v.apply e).apply f).get? e.role = some e.role.natural ∧
      ((v.apply f).apply e).get? e.role = none := by
  simp only [get?_apply]
  exact Edit.effect_of_undoes h (v.get? e.role)

theorem apply_ne_of_undoes (h : e.Undoes f) (v : Voicing) :
    (v.apply e).apply f ≠ (v.apply f).apply e := by
  intro heq
  obtain ⟨hfilled, hnone⟩ := get?_of_undoes h v
  rw [heq, hnone] at hfilled
  cases hfilled

theorem apply_comm_iff_not_undoes (h : e.role ≠ f.role) (v : Voicing) :
    (v.apply e).apply f = (v.apply f).apply e ↔ ¬e.Undoes f ∧ ¬f.Undoes e := by
  constructor
  · intro heq
    exact ⟨fun hef => apply_ne_of_undoes hef v heq, fun hfe => apply_ne_of_undoes hfe v heq.symm⟩
  · rintro ⟨hef, hfe⟩
    exact apply_comm h hef hfe v

/-- Edits of different roles change places, whatever the voicing, unless one removes a role and the
other replaces a role above it. In that case no voicing comes out the same: the lower role is back at
its natural value, or it is silent. -/
theorem apply_comm_iff (e f : Edit) (h : e.role ≠ f.role) (v : Voicing) :
    ((v.apply e).apply f = (v.apply f).apply e ↔
      ¬∃ p r x, p < r ∧ (e = .remove p ∧ f = .replace r x ∨ f = .remove p ∧ e = .replace r x)) ∧
    ∀ p r x, p < r →
      ((v.apply (.remove p)).apply (.replace r x)).get? p = some p.natural ∧
        ((v.apply (.replace r x)).apply (.remove p)).get? p = none := by
  constructor
  · rw [apply_comm_iff_not_undoes h, Edit.undoes_iff, Edit.undoes_iff, ← not_or]
    simp only [and_or_left, exists_or]
  · intro p r x hpr
    exact get?_of_undoes (Edit.undoes_iff.2 ⟨p, r, x, hpr, rfl, rfl⟩) v

/-- A third removed before or after a seventh is written, and a silent ninth lowered before or after a
thirteenth is written. -/
theorem apply_comm_iff_majorTriad :
    Edit.role (.remove .third) ≠ Edit.role (.replace .seventh 10) ∧
    (majorTriad.apply (.remove .third)).apply (.replace .seventh 10) ≠
      (majorTriad.apply (.replace .seventh 10)).apply (.remove .third) ∧
    Edit.role (.modify .ninth (-1)) ≠ Edit.role (.replace .thirteenth 21) ∧
    (majorTriad.apply (.modify .ninth (-1))).apply (.replace .thirteenth 21) =
      (majorTriad.apply (.replace .thirteenth 21)).apply (.modify .ninth (-1)) := by
  have hthird : Edit.role (.remove .third) ≠ Edit.role (.replace .seventh 10) := by decide
  have hninth : Edit.role (.modify .ninth (-1)) ≠ Edit.role (.replace .thirteenth 21) := by decide
  refine ⟨hthird, fun heq => ?_, hninth, ?_⟩
  · exact (apply_comm_iff _ _ hthird majorTriad).1.1 heq
      ⟨.third, .seventh, 10, by decide, .inl ⟨rfl, rfl⟩⟩
  · refine (apply_comm_iff _ _ hninth majorTriad).1.2 ?_
    rintro ⟨p, r, x, -, ⟨he, -⟩ | ⟨he, -⟩⟩
    · cases he
    · cases he

end Voicing
end ChordSymbol
