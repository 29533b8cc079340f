import ChordSymbol.Display
import ChordSymbol.Lexicon.Standard
import ChordSymbol.Proofs.RoleEffect
import ChordSymbol.Proofs.Succession

/-! When the order in which modifiers are written means nothing. In such a lexicon the editors of one
role all differ in priority, so the priorities alone settle in which order a role is edited. -/
namespace ChordSymbol

theorem Category.eq_or_quality {c d : Category} (h : c.priority = d.priority) :
    c = d ∨ c.isQualityClass = true ∧ d.isQualityClass = true := by
  revert h
  cases c <;> cases d <;> decide

/-- A lexicon that gives the order of writing nothing to say. -/
structure Lexicon.OrderFree (lx : Lexicon) : Prop where
  priority : ∀ u ∈ lx.rules, u.priority = u.category.priority
  noAdd : ∀ u ∈ lx.rules, u.category = .alteration → ∀ e ∈ u.edits, e.kind ≠ .add
  noRefill : ∀ u ∈ lx.rules, ∀ w ∈ lx.rules, u ≠ w → u.category = w.category →
    ∀ e ∈ u.edits, ∀ f ∈ w.edits, ¬e.Undoes f

namespace Combination

variable {lx : Lexicon} {ts ts' : List Token} {ms ms' : List Modifier} {r : Role} {x y : Modifier}

/-- Only an alteration yields, and only what is none is yielded to. -/
theorem Yields.category_ne (hof : lx.OrderFree) (hx : x.rule ∈ lx.rules)
    (ht : x.rule.touches r = true) (h : Yields r x y) : x.rule.category ≠ .alteration := by
  intro ha
  obtain ⟨e, he, -, hadd⟩ := Rule.exists_of_lastKind? (h.added_of_alteration ht ha)
  exact hof.noAdd x.rule hx ha e he hadd

theorem Yields.priority_lt (hof : lx.OrderFree) (hx : x.rule ∈ lx.rules) (hy : y.rule ∈ lx.rules)
    (ht : x.rule.touches r = true) (h : Yields r x y) : x.rule.priority < y.rule.priority := by
  have hne := h.category_ne hof hx ht
  rw [hof.priority x.rule hx, hof.priority y.rule hy, h.alteration]
  cases hc : x.rule.category with
  | alteration => exact absurd hc hne
  | _ => decide

theorem editing_perm (p : ms.Perm ms') (r : Role) : (editing r ms).Perm (editing r ms') :=
  (((Modifier.inOrder_perm ms).trans p).trans (Modifier.inOrder_perm ms').symm).filter _

theorem editing_sorted (r : Role) (ms : List Modifier) :
    (editing r ms).Pairwise fun x y => x.rule.priority ≤ y.rule.priority :=
  (Modifier.inOrder_sorted ms).filter _

/-- Along a role priorities rise. -/
theorem editing_strictly_sorted (hof : lx.OrderFree) (hms : ∀ m ∈ ms, m.rule ∈ lx.rules)
    (hc : Compatible ms) (r : Role) :
    (editing r ms).Pairwise fun x y => x.rule.priority < y.rule.priority := by
  let Rises : Modifier → Modifier → Prop := fun x y => x.rule.priority < y.rule.priority
  have trans : Trans Rises Rises Rises := ⟨Nat.lt_trans⟩
  have hchain : (editing r ms).IsChain Rises := by
    refine (hc.roles r).imp_of_mem_imp fun x y hx hy hxy => ?_
    obtain ⟨hxm, hxr⟩ := mem_editing.1 hx
    exact hxy.priority_lt hof (hms x hxm) (hms y (mem_editing.1 hy).1) hxr
  exact hchain.pairwise

theorem editing_eq_of_perm (hof : lx.OrderFree) (hms : ∀ m ∈ ms, m.rule ∈ lx.rules)
    (hc : Compatible ms) (p : ms.Perm ms') (r : Role) : editing r ms = editing r ms' :=
  eq_of_strictly_sorted (editing_perm p r) (editing_strictly_sorted hof hms hc r)
    (editing_sorted r ms')

theorem Compatible.perm (hof : lx.OrderFree) (hms : ∀ m ∈ ms, m.rule ∈ lx.rules)
    (hc : Compatible ms) (p : ms.Perm ms') : Compatible ms' where
  oneQuality := by
    rw [← (p.filter _).length_eq]
    exact hc.oneQuality
  noExclusion := hc.noExclusion.perm p fun h => ⟨h.2, h.1⟩
  roles := by
    intro r
    rw [← editing_eq_of_perm hof hms hc p r]
    exact hc.roles r
  provided := by
    rintro front' m back' rfl q hq
    obtain ⟨front, back, rfl⟩ := List.append_of_mem (p.mem_iff.2 (by simp : m ∈ front' ++ m :: back'))
    have hothers : (front ++ back).Perm (front' ++ back') :=
      ((List.perm_middle.symm.trans p).trans List.perm_middle).cons_inv
    obtain ⟨o, ho, hmet⟩ := hc.provided front m back rfl q hq
    exact ⟨o, hothers.mem_iff.1 ho, hmet⟩

/-- Different modifiers of one priority have no role in common. -/
theorem Compatible.role_ne (hof : lx.OrderFree) (hms : ∀ m ∈ ms, m.rule ∈ lx.rules)
    (hc : Compatible ms) (hx : x ∈ ms) (hy : y ∈ ms) (hp : x.rule.priority = y.rule.priority)
    (hne : x ≠ y) : ∀ e ∈ x.rule.edits, ∀ f ∈ y.rule.edits, e.role ≠ f.role := by
  intro e he f hf hr
  have hxr : x ∈ editing e.role ms := mem_editing.2 ⟨hx, Rule.touches_iff.2 ⟨e, he, rfl⟩⟩
  have hyr : y ∈ editing e.role ms := mem_editing.2 ⟨hy, Rule.touches_iff.2 ⟨f, hf, hr.symm⟩⟩
  let Differ : Modifier → Modifier → Prop := fun x y => x.rule.priority ≠ y.rule.priority
  have symm : Std.Symm Differ := ⟨fun _ _ h => h.symm⟩
  have hdiff : (editing e.role ms).Pairwise Differ :=
    (editing_strictly_sorted hof hms hc e.role).imp Nat.ne_of_lt
  exact hdiff.forall hxr hyr hne hp

theorem Compatible.category_eq (hof : lx.OrderFree) (hms : ∀ m ∈ ms, m.rule ∈ lx.rules)
    (hc : Compatible ms) (hx : x ∈ ms) (hy : y ∈ ms) (hp : x.rule.priority = y.rule.priority)
    (hne : x ≠ y) : x.rule.category = y.rule.category := by
  rw [hof.priority x.rule (hms x hx), hof.priority y.rule (hms y hy)] at hp
  rcases Category.eq_or_quality hp with h | h
  · exact h
  · let Apart : Modifier → Modifier → Prop := fun x y =>
      ¬(x.rule.category.isQualityClass = true ∧ y.rule.category.isQualityClass = true)
    have symm : Std.Symm Apart := ⟨fun _ _ h hq => h ⟨hq.2, hq.1⟩⟩
    have hapart : ms.Pairwise Apart := length_filter_le_one_iff.1 hc.oneQuality
    exact absurd h (hapart.forall hx hy hne)

/-- Two modifiers of one priority leave each other's edits alone. -/
theorem Compatible.applyAll_comm (hof : lx.OrderFree) (hms : ∀ m ∈ ms, m.rule ∈ lx.rules)
    (hc : Compatible ms) (hx : x ∈ ms) (hy : y ∈ ms) (hp : x.rule.priority = y.rule.priority)
    (v : Voicing) :
    (v.applyAll x.rule.edits).applyAll y.rule.edits =
      (v.applyAll y.rule.edits).applyAll x.rule.edits := by
  by_cases hne : x = y
  · rw [hne]
  · have hrole := hc.role_ne hof hms hx hy hp hne
    have hcat := hc.category_eq hof hms hx hy hp hne
    refine Voicing.applyAll_comm (fun e he f hf => ?_) v
    have hrule : x.rule ≠ y.rule := by
      intro h
      rw [h] at he
      exact hrole e (h ▸ he) e he rfl
    exact ⟨hrole e he f hf,
      hof.noRefill x.rule (hms x hx) y.rule (hms y hy) hrule hcat e he f hf,
      hof.noRefill y.rule (hms y hy) x.rule (hms x hx) hrule.symm hcat.symm f hf e he⟩

theorem start_eq_of_perm (lx : Lexicon) (p : ms.Perm ms') : lx.start ms = lx.start ms' := by
  unfold Lexicon.start
  rw [p.any_eq]

theorem voicing_eq_of_perm (hof : lx.OrderFree) (hms : ∀ m ∈ ms, m.rule ∈ lx.rules)
    (hc : Compatible ms) (p : ms.Perm ms') (v : Voicing) :
    v.applyAll ((Modifier.edits ms).map (·.2)) = v.applyAll ((Modifier.edits ms').map (·.2)) := by
  rw [Lexicon.applyAll_edits, Lexicon.applyAll_edits]
  have pin := ((Modifier.inOrder_perm ms).trans p).trans (Modifier.inOrder_perm ms').symm
  refine foldl_eq_of_sorted pin (Modifier.inOrder_sorted ms) (Modifier.inOrder_sorted ms') ?_ v
  intro x hx y hy hp v
  exact hc.applyAll_comm hof hms (Modifier.mem_inOrder.1 hx) (Modifier.mem_inOrder.1 hy) hp v

theorem validate_ok_of_perm (hof : lx.OrderFree) (p : ts.Perm ts')
    (h : ∃ us, lx.validate ts = .ok us) : ∃ us, lx.validate ts' = .ok us := by
  obtain ⟨us, hu⟩ := h
  obtain ⟨ms, hms, hc, -⟩ := validate_eq_ok.1 hu
  obtain ⟨ms', hms', pms⟩ := Lexicon.modifiers_perm p hms
  have hc' := hc.perm hof (fun m hm => Lexicon.rule_mem_of_modifiers hms hm) pms
  exact ⟨ts', validate_eq_ok.2 ⟨ms', hms', hc', rfl⟩⟩

/-- Written in another order the same modifiers are accepted or refused alike, and make the same
voicing, shown alike. -/
theorem written_order_irrelevant (lx : Lexicon) (hof : lx.OrderFree) (ts ts' : List Token)
    (p : ts.Perm ts') :
    ((∃ us, lx.validate ts = .ok us) ↔ ∃ us, lx.validate ts' = .ok us) ∧
    ((∃ us, lx.validate ts = .ok us) → ∃ d d', lx.derive ts = .ok d ∧ lx.derive ts' = .ok d' ∧
      d.voicing = d'.voicing ∧
      (∀ separator, Display.ofVoicing separator d.voicing =
        Display.ofVoicing separator d'.voicing) ∧
      ∀ root, d.voicing.pitchClasses root = d'.voicing.pitchClasses root) := by
  refine ⟨⟨validate_ok_of_perm hof p, validate_ok_of_perm hof p.symm⟩, ?_⟩
  rintro ⟨us, hu⟩
  obtain ⟨ms, hms, hc, -⟩ := validate_eq_ok.1 hu
  obtain ⟨ms', hms', pms⟩ := Lexicon.modifiers_perm p hms
  have hv := voicing_eq_of_perm hof (fun m hm => Lexicon.rule_mem_of_modifiers hms hm) hc pms
    (lx.start ms)
  have hd := Lexicon.derive_of_modifiers hms
  have hd' := Lexicon.derive_of_modifiers hms'
  rw [← start_eq_of_perm lx pms] at hd'
  refine ⟨_, _, hd, hd', hv, ?_, ?_⟩
  · intro separator
    rw [hv]
  · intro root
    rw [hv]

end Combination

theorem Lexicon.orderFree_standard : Lexicon.standard.OrderFree where
  priority := by decide
  noAdd := by decide
  noRefill := by
    -- only alterations remove, and no alteration replaces
    have h : ∀ u ∈ standard.rules, ∀ w ∈ standard.rules, u.category = w.category →
        ∀ e ∈ u.edits, ∀ f ∈ w.edits, ¬e.Undoes f := by decide
    exact fun u hu w hw _ => h u hu w hw

namespace Combination

/-- A minor seventh with a lowered fifth, written backwards. -/
theorem written_order_irrelevant_reversed : Lexicon.standard.OrderFree ∧
    List.Perm [⟨20, "b5"⟩, ⟨9, "7"⟩, ⟨1, "m"⟩] [⟨1, "m"⟩, ⟨9, "7"⟩, (⟨20, "b5"⟩ : Token)] ∧
    (∃ us, Lexicon.standard.validate [⟨1, "m"⟩, ⟨9, "7"⟩, ⟨20, "b5"⟩] = .ok us) ∧
    ∃ d d', Lexicon.standard.derive [⟨20, "b5"⟩, ⟨9, "7"⟩, ⟨1, "m"⟩] = .ok d ∧
      Lexicon.standard.derive [⟨1, "m"⟩, ⟨9, "7"⟩, ⟨20, "b5"⟩] = .ok d' ∧
      d.voicing = d'.voicing := by
  have p : List.Perm [⟨20, "b5"⟩, ⟨9, "7"⟩, ⟨1, "m"⟩]
      [⟨1, "m"⟩, ⟨9, "7"⟩, (⟨20, "b5"⟩ : Token)] := by decide
  have h := written_order_irrelevant _ Lexicon.orderFree_standard _ _ p
  have hok : Lexicon.standard.validate [⟨20, "b5"⟩, ⟨9, "7"⟩, ⟨1, "m"⟩] =
      .ok [⟨20, "b5"⟩, ⟨9, "7"⟩, ⟨1, "m"⟩] := by cbv
  obtain ⟨d, d', hd, hd', hv, -, -⟩ := h.2 ⟨_, hok⟩
  exact ⟨Lexicon.orderFree_standard, p, h.1.1 ⟨_, hok⟩, d, d', hd, hd', hv⟩

end Combination
end ChordSymbol
