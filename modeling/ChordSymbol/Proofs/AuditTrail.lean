import ChordSymbol.Proofs.Backing
import ChordSymbol.Proofs.Succession

/-! What the steps of a derivation tell. They name all edits in order of effect, and what they report
of the roles is enough to build the voicing again without performing a single edit. -/
namespace ChordSymbol

theorem Role.all_ascending : all.Pairwise (· < ·) := by decide

theorem Role.ne_of_lt {p r : Role} (h : p < r) : p ≠ r := by
  rintro rfl
  exact Nat.lt_irrefl _ h

namespace Voicing

variable {v : Voicing} {e : Edit} {q : Role}

/-- Gives `r` the value `x`, or silences it. -/
def put (v : Voicing) (r : Role) : Option Int → Voicing
  | some x => v.set r x
  | none => v.erase r

@[simp] theorem fill_nil (v : Voicing) : v.fill [] = v := rfl

theorem backfilled_ascending (v : Voicing) (e : Edit) : (v.backfilled e).Pairwise (· < ·) := by
  cases e with
  | replace r x => exact (Role.all_ascending.filter _).filter _
  | modify | add | remove => exact List.Pairwise.nil

/-- The roles filled are those that an edit brings in besides its own. -/
theorem mem_backfilled : q ∈ v.backfilled e ↔
    q ≠ e.role ∧ v.get? q = none ∧ (v.apply e).get? q ≠ none := by
  rw [get?_apply]
  constructor
  · intro h
    cases e with
    | replace r x =>
      obtain ⟨hlt, hnone⟩ := mem_missingBelow.1 h
      have hne := Role.ne_of_lt hlt
      exact ⟨hne, hnone, by simp [Edit.effect, hne.symm, hlt]⟩
    | modify | add | remove => cases h
  · rintro ⟨hne, hnone, hsome⟩
    rcases Edit.effect_of_ne hne.symm with hid | ⟨⟨r, x, rfl, hlt⟩, -⟩
    · exact absurd ((hid _).trans hnone) hsome
    · exact mem_missingBelow.2 ⟨hlt, hnone⟩

end Voicing

namespace Step

variable {v : Voicing} {es : List (String × Edit)} {s : Step} {front back : List Step}

/-- What a step reports, brought about without its edit: roles are filled, then its own is put. -/
def replay (v : Voicing) (s : Step) : Voicing := (v.fill s.backfilled).put s.edit.role s.after

/-- One step: the report alone has the effect of the edit. -/
theorem replay_ofEdit (v : Voicing) (symbol : String) (e : Edit) :
    (ofEdit v symbol e).replay v = v.apply e := by
  cases e <;> simp [replay, ofEdit, Voicing.apply, Voicing.backfilled, Voicing.put, Edit.role]

/-- What a step says of the voicing that it starts from is true, and so is what it says of the roles
it filled: they were silent, are so no more, and stand in order. -/
structure TrueOf (v : Voicing) (s : Step) : Prop where
  before : s.before = v.get? s.edit.role
  after : s.after = (v.apply s.edit).get? s.edit.role
  ascending : s.backfilled.Pairwise (· < ·)
  backfilled : ∀ q, q ∈ s.backfilled ↔
    q ≠ s.edit.role ∧ v.get? q = none ∧ (v.apply s.edit).get? q ≠ none
  replay : s.replay v = v.apply s.edit

theorem ofEdit_trueOf (v : Voicing) (symbol : String) (e : Edit) : (ofEdit v symbol e).TrueOf v where
  before := rfl
  after := rfl
  ascending := v.backfilled_ascending e
  backfilled := fun _ => Voicing.mem_backfilled
  replay := replay_ofEdit v symbol e

/-- The run: the reports alone lead to the same voicing. -/
theorem foldl_replay_ofEdits (v : Voicing) (es : List (String × Edit)) :
    (ofEdits v es).foldl replay v = v.applyAll (es.map (·.2)) := by
  induction es generalizing v with
  | nil => rfl
  | cons e es ih =>
    rw [ofEdits, List.foldl_cons, replay_ofEdit, ih]
    rfl

theorem map_ofEdits (v : Voicing) (es : List (String × Edit)) :
    (ofEdits v es).map (fun s => (s.symbol, s.edit)) = es := by
  induction es generalizing v with
  | nil => rfl
  | cons e es ih => simp [ofEdits, ofEdit, ih]

/-- Every step of a run is true of what the steps before it lead to. -/
theorem trueOf_of_ofEdits_eq (h : ofEdits v es = front ++ s :: back) :
    s.TrueOf (front.foldl replay v) := by
  induction front generalizing v es with
  | nil =>
    cases es with
    | nil => cases h
    | cons e es =>
      obtain rfl := (List.cons.inj h).1
      exact ofEdit_trueOf v e.1 e.2
  | cons t front ih =>
    cases es with
    | nil => cases h
    | cons e es =>
      have hcons := List.cons.inj h
      have hs := ih hcons.2
      -- the induction speaks of what the edit makes of `v`, which is what its report makes of it
      rw [List.foldl_cons, ← hcons.1, replay_ofEdit]
      exact hs

end Step

namespace Modifier

/-- `ns` are `ms` with the lower priorities first, and those of one priority as written. -/
structure Ranked (ms ns : List Modifier) : Prop where
  perm : ns.Perm ms
  sorted : ns.Pairwise fun x y => x.rule.priority ≤ y.rule.priority
  stable : ∀ p, ns.filter (·.rule.priority = p) = ms.filter (·.rule.priority = p)

theorem ranked_inOrder (ms : List Modifier) : Ranked ms (inOrder ms) where
  perm := inOrder_perm ms
  sorted := inOrder_sorted ms
  stable := filter_priority_inOrder ms

end Modifier

namespace Lexicon

/-- A chord that names a quality begins with its root alone, any other with what the default makes of
the root, or with the major triad where no rule is the default. -/
structure Begins (lx : Lexicon) (ms : List Modifier) (v : Voicing) : Prop where
  named : (∃ m ∈ ms, m.rule.category.isQualityClass = true) → v = .rootOnly
  implied : (∀ m ∈ ms, m.rule.category.isQualityClass = false) → ∀ u, lx.default? = some u →
    v = Voicing.rootOnly.applyAll u.edits
  bare : (∀ m ∈ ms, m.rule.category.isQualityClass = false) → lx.default? = none → v = .majorTriad

theorem begins_start (lx : Lexicon) (ms : List Modifier) : lx.Begins ms (lx.start ms) where
  named := fun h => if_pos (List.any_eq_true.2 h)
  implied := by
    intro h u hu
    have hany : ¬(ms.any (·.rule.category.isQualityClass)) = true := by simpa using h
    rw [start, if_neg hany, Lexicon.implied, hu]
  bare := by
    intro h hu
    have hany : ¬(ms.any (·.rule.category.isQualityClass)) = true := by simpa using h
    rw [start, if_neg hany, Lexicon.implied, hu]

/-- The steps of a derivation are all edits in order of effect, each told truly, and what they report
of the roles leads from the beginning to the voicing. -/
theorem derive_audited (lx : Lexicon) (ts : List Token) (h : ∀ t ∈ ts, t.rule < lx.size) :
    ∃ ms ns d v, lx.modifiers ts = .ok ms ∧ Modifier.Ranked ms ns ∧ lx.Begins ms v ∧
      lx.derive ts = .ok d ∧
      d.steps.map (fun s => (s.symbol, s.edit)) =
        ns.flatMap (fun m => m.rule.edits.map (m.token.symbol, ·)) ∧
      d.steps.foldl Step.replay v = d.voicing ∧
      ∀ front s back, d.steps = front ++ s :: back → s.TrueOf (front.foldl Step.replay v) := by
  obtain ⟨ms, hms⟩ := exists_modifiers h
  refine ⟨ms, Modifier.inOrder ms, _, lx.start ms, hms, Modifier.ranked_inOrder ms,
    begins_start lx ms, derive_of_modifiers hms, ?_, ?_, ?_⟩
  · exact Step.map_ofEdits _ _
  · exact Step.foldl_replay_ofEdits _ _
  · exact fun front s back hsteps => Step.trueOf_of_ofEdits_eq hsteps

/-- A ninth that brings in the seventh below it, is then added anew, and last is shifted. -/
theorem derive_audited_ninths :
    (∀ t ∈ [⟨1, "alt"⟩, ⟨2, "#9"⟩, (⟨0, "9"⟩ : Token)], t.rule < Combination.ninths.size) ∧
    ∃ d, Combination.ninths.derive [⟨1, "alt"⟩, ⟨2, "#9"⟩, ⟨0, "9"⟩] = .ok d ∧
      d.steps.map (fun s => (s.symbol, s.backfilled)) = [("9", [.seventh]), ("alt", []), ("#9", [])] ∧
      d.steps.foldl Step.replay .majorTriad = d.voicing := by
  have hr : ∀ t ∈ [⟨1, "alt"⟩, ⟨2, "#9"⟩, (⟨0, "9"⟩ : Token)],
      t.rule < Combination.ninths.size := by decide
  obtain ⟨ms, ns, d, v, hms, -, hv, hd, -, hfold, -⟩ := derive_audited Combination.ninths _ hr
  cases hms
  rw [hv.bare (by decide) (by decide)] at hfold
  refine ⟨hr, d, hd, ?_, hfold⟩
  cases hd
  cbv

end Lexicon
end ChordSymbol
