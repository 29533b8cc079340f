import ChordSymbol.Voicing

/-! What edits do to one role alone: a voicing is seven machines side by side, one to a role. Edits
of different roles may change places, unless one would fill what the other empties. -/
namespace ChordSymbol

namespace Edit

variable {e f : Edit} {q : Role}

/-- What an edit makes of the value of `q`, whatever sounds at the other roles. -/
def effect (q : Role) (x : Option Int) : Edit → Option Int
  | .replace r v => if r = q then some v else if q < r then some (x.getD q.natural) else x
  | .modify r d => if r = q then some (Semitones.sum (x.getD q.natural) d) else x
  | .add r v => if r = q then some v else x
  | .remove r => if r = q then none else x

/-- The first edit empties a role that the second would fill. -/
def Undoes : Edit → Edit → Prop
  | .remove p, .replace r _ => p < r
  | _, _ => False

instance (e f : Edit) : Decidable (Undoes e f) := by
  cases e <;> cases f <;> unfold Undoes <;> infer_instance

/-- An edit leaves other roles alone, or else fills them. -/
theorem effect_of_ne (h : e.role ≠ q) : (∀ x, effect q x e = x) ∨
    (∃ r v, e = .replace r v ∧ q < r) ∧ ∀ x, effect q x e = some (x.getD q.natural) := by
  cases e with
  | replace r v =>
    have hr : r ≠ q := h
    by_cases hq : q < r
    · exact .inr ⟨⟨r, v, rfl, hq⟩, fun x => by simp [effect, hr, hq]⟩
    · exact .inl fun x => by simp [effect, hr, hq]
  | modify r d =>
    have hr : r ≠ q := h
    exact .inl fun x => by simp [effect, hr]
  | add r v =>
    have hr : r ≠ q := h
    exact .inl fun x => by simp [effect, hr]
  | remove r =>
    have hr : r ≠ q := h
    exact .inl fun x => by simp [effect, hr]

/-- An edit that keeps its role does not ask whether the role was filled before. -/
theorem effect_fill (h : e.role = q) (hr : e ≠ .remove q) (x : Option Int) :
    effect q (some (x.getD q.natural)) e = effect q x e ∧
      some ((effect q x e).getD q.natural) = effect q x e := by
  cases e with
  | replace r v => subst h; simp [effect, role]
  | modify r d => subst h; simp [effect, role]
  | add r v => subst h; simp [effect, role]
  | remove r => subst h; exact absurd rfl hr

theorem effect_comm (hr : e.role ≠ f.role) (hef : ¬Undoes e f) (hfe : ¬Undoes f e) (q : Role)
    (x : Option Int) : effect q (effect q x e) f = effect q (effect q x f) e := by
  by_cases he : e.role = q
  · have hf : f.role ≠ q := fun h => hr (he.trans h.symm)
    rcases effect_of_ne hf with hid | ⟨⟨r, v, rfl, hqr⟩, hfill⟩
    · rw [hid, hid]
    · -- filling `q` early or late is the same, since `e` keeps it
      have hne : e ≠ .remove q := by
        rintro rfl
        exact hef hqr
      have h := effect_fill he hne x
      rw [hfill, hfill, h.1, h.2]
  · rcases effect_of_ne he with hid | ⟨⟨r, v, rfl, hqr⟩, hfill⟩
    · rw [hid, hid]
    · by_cases hf : f.role = q
      · have hne : f ≠ .remove q := by
          rintro rfl
          exact hfe hqr
        have h := effect_fill hf hne x
        rw [hfill, hfill, h.1, h.2]
      · rcases effect_of_ne hf with hid | ⟨-, hfill'⟩
        · rw [hid, hid]
        · rw [hfill, hfill', hfill', hfill]

end Edit

namespace Voicing

variable {v : Voicing} {e f : Edit} {es fs : List Edit}

theorem get?_apply (v : Voicing) (e : Edit) (q : Role) :
    (v.apply e).get? q = e.effect q (v.get? q) := by
  cases e with
  | replace r x =>
    simp only [apply, get?_set, get?_fill, mem_missingBelow, Edit.effect]
    by_cases hq : q = r
    · simp [hq]
    · cases hv : v.get? q <;> simp [hq, Ne.symm hq]
  | modify r d => simp only [apply, get?_set, Edit.effect]; grind
  | add r x => simp only [apply, get?_set, Edit.effect]; grind
  | remove r => simp only [apply, get?_erase, Edit.effect]; grind

theorem apply_comm (hr : e.role ≠ f.role) (hef : ¬e.Undoes f) (hfe : ¬f.Undoes e) (v : Voicing) :
    (v.apply e).apply f = (v.apply f).apply e := by
  refine Voicing.ext (funext fun q => ?_)
  simp only [get?_apply]
  exact Edit.effect_comm hr hef hfe q (v.get? q)

theorem apply_applyAll_comm (h : ∀ f ∈ fs, e.role ≠ f.role ∧ ¬e.Undoes f ∧ ¬f.Undoes e)
    (v : Voicing) : (v.apply e).applyAll fs = (v.applyAll fs).apply e := by
  induction fs generalizing v with
  | nil => rfl
  | cons f fs ih =>
    obtain ⟨hr, hef, hfe⟩ := h f List.mem_cons_self
    have hfs := ih fun g hg => h g (List.mem_cons_of_mem f hg)
    rw [applyAll_cons, applyAll_cons, apply_comm hr hef hfe, hfs]

/-- Runs of edits change places if each edit of one does with each of the other. -/
theorem applyAll_comm (h : ∀ e ∈ es, ∀ f ∈ fs, e.role ≠ f.role ∧ ¬e.Undoes f ∧ ¬f.Undoes e)
    (v : Voicing) : (v.applyAll es).applyAll fs = (v.applyAll fs).applyAll es := by
  induction es generalizing v with
  | nil => rfl
  | cons e es ih =>
    have hes := ih fun g hg => h g (List.mem_cons_of_mem e hg)
    rw [applyAll_cons, applyAll_cons, hes, apply_applyAll_comm (h e List.mem_cons_self)]

end Voicing
end ChordSymbol
