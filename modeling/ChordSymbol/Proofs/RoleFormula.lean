import ChordSymbol.Proofs.Backing
import ChordSymbol.Proofs.WrittenOrder

/-! What a chord of the built-in lexicon sounds, role by role: a ground value that at most one
modifier gives, and at most one alteration of it. -/
namespace ChordSymbol

/-- The rule's first edit of `r`. -/
def Rule.editOf? (u : Rule) (r : Role) : Option Edit := u.edits.find? (·.role = r)

theorem Rule.exists_editOf? {u : Rule} {r : Role} (h : u.touches r = true) :
    ∃ e ∈ u.edits, e.role = r ∧ u.editOf? r = some e := by
  obtain ⟨f, hf, hfr⟩ := Rule.touches_iff.1 h
  cases he : u.edits.find? (·.role = r) with
  | none =>
    have hno := List.find?_eq_none.1 he f hf
    exact absurd hfr (by simpa using hno)
  | some e =>
    have hr := List.find?_some he
    exact ⟨e, List.mem_of_find?_eq_some he, by simpa using hr, he⟩

/-- Edits of which no two share a role hold at most one of `r`. -/
theorem Edit.filter_role_eq {es : List Edit} (h : (es.map (·.role)).Nodup) (r : Role) :
    es.filter (·.role = r) = (es.find? (·.role = r)).toList := by
  induction es with
  | nil => rfl
  | cons e es ih =>
    rw [List.map_cons, List.nodup_cons] at h
    by_cases he : e.role = r
    · have hnil : es.filter (·.role = r) = [] := by
        refine List.filter_eq_nil_iff.2 fun f hf hfr => h.1 ?_
        exact List.mem_map.2 ⟨f, hf, by rw [he]; simpa using hfr⟩
      rw [List.filter_cons_of_pos (by simpa using he), hnil,
        List.find?_cons_of_pos (by simpa using he)]
      rfl
    · rw [List.filter_cons_of_neg (by simpa using he), ih h.2,
        List.find?_cons_of_neg (by simpa using he)]

/-- The value that an edit writes, whatever was there. -/
def Edit.written? : Edit → Option Int
  | replace _ x | add _ x => some x
  | modify .. | remove _ => none

theorem Edit.amount?_of_written? {e : Edit} {x : Int} (h : e.written? = some x) :
    e.amount? = some x := by
  cases e with
  | replace r v => exact h
  | add r v => exact h
  | modify r d => cases h
  | remove r => cases h

theorem Edit.effect_eq_written? {e : Edit} (h : e.kind = .replace ∨ e.kind = .add)
    (x : Option Int) : e.effect e.role x = e.written? := by
  cases e with
  | replace r v => simp [effect, role, written?]
  | add r v => simp [effect, role, written?]
  | modify r d => simp [kind] at h
  | remove r => simp [kind] at h

namespace Modifier

variable {ms : List Modifier} {r : Role}

/-- Gives `r` a value, as modifiers other than alterations do. -/
def grounds (r : Role) (m : Modifier) : Bool :=
  m.rule.category ≠ .alteration && m.rule.touches r

/-- Changes what others gave `r`. -/
def alters (r : Role) (m : Modifier) : Bool :=
  m.rule.category = .alteration && m.rule.touches r

theorem grounds_iff {m : Modifier} :
    grounds r m = true ↔ m.rule.category ≠ .alteration ∧ m.rule.touches r = true := by
  simp [grounds]

theorem alters_iff {m : Modifier} :
    alters r m = true ↔ m.rule.category = .alteration ∧ m.rule.touches r = true := by
  simp [alters]

theorem edit_of_find?_grounds {m : Modifier} (h : ms.find? (grounds r) = some m) :
    m ∈ ms ∧ m.rule.category ≠ .alteration ∧
      ∃ e ∈ m.rule.edits, e.role = r ∧ m.rule.editOf? r = some e := by
  obtain ⟨hcat, ht⟩ := grounds_iff.1 (List.find?_some h)
  exact ⟨List.mem_of_find?_eq_some h, hcat, Rule.exists_editOf? ht⟩

theorem edit_of_find?_alters {m : Modifier} (h : ms.find? (alters r) = some m) :
    m ∈ ms ∧ m.rule.category = .alteration ∧
      ∃ e ∈ m.rule.edits, e.role = r ∧ m.rule.editOf? r = some e := by
  obtain ⟨hcat, ht⟩ := alters_iff.1 (List.find?_some h)
  exact ⟨List.mem_of_find?_eq_some h, hcat, Rule.exists_editOf? ht⟩

/-- What `r` sounds if no modifier grounds it: a chord that names no quality has a major third and
a perfect fifth, and the root is there in any case. -/
def unwritten (ms : List Modifier) (r : Role) : Option Int :=
  match r with
  | .root => some 0
  | .third => if ms.any (·.rule.category.isQualityClass) then none else some 4
  | .fifth => if ms.any (·.rule.category.isQualityClass) then none else some 7
  | _ => none

/-- What `r` sounds before any alteration. -/
def ground (ms : List Modifier) (r : Role) : Option Int :=
  match ms.find? (grounds r) with
  | some m => (m.rule.editOf? r).bind (·.written?)
  | none => unwritten ms r

/-- What `r` sounds: its ground, shifted or silenced by the alteration that there may be. -/
def sounding (ms : List Modifier) (r : Role) : Option Int :=
  match (ms.find? (alters r)).bind (·.rule.editOf? r) with
  | some (.modify _ d) => some ((ground ms r).getD r.natural + d)
  | some (.remove _) => none
  | _ => ground ms r

/-- Of the edits of a run those of `r` are one for each modifier that edits `r`. -/
theorem filter_edits (ns : List Modifier) (h : ∀ m ∈ ns, (m.rule.edits.map (·.role)).Nodup)
    (r : Role) :
    ((ns.flatMap fun m => m.rule.edits.map (m.token.symbol, ·)).map (·.2)).filter (·.role = r) =
      (ns.filter (·.rule.touches r)).flatMap fun m => (m.rule.editOf? r).toList := by
  induction ns with
  | nil => rfl
  | cons m ns ih =>
    have hm := Edit.filter_role_eq (h m List.mem_cons_self) r
    have hns := ih fun n hn => h n (List.mem_cons_of_mem m hn)
    rw [List.flatMap_cons, List.map_append, map_snd_edits, List.filter_append, hns, hm]
    cases ht : m.rule.touches r with
    | true =>
      rw [List.filter_cons, if_pos ht, List.flatMap_cons]
      rfl
    | false =>
      have hnone : m.rule.edits.find? (·.role = r) = none := by
        refine List.find?_eq_none.2 fun e he => ?_
        simpa using List.any_eq_false.1 ht e he
      rw [List.filter_cons, if_neg (by simp [ht]), hnone]
      rfl

end Modifier

/-- Where at most one item qualifies, the order of the list does not matter for finding it. -/
theorem find?_eq_of_filter_perm {α : Type} {p q : α → Bool} {xs ys : List α}
    (h : (xs.filter p).Perm (ys.filter q)) (hone : (ys.filter q).length ≤ 1) :
    xs.find? p = ys.find? q := by
  rw [← List.head?_filter, ← List.head?_filter]
  cases hy : ys.filter q with
  | nil =>
    rw [hy] at h
    rw [h.eq_nil]
  | cons y rest =>
    rw [hy, List.length_cons] at hone
    have hrest : rest = [] := List.length_eq_zero_iff.1 (by omega)
    rw [hy, hrest] at h
    rw [List.perm_singleton.1 h, hrest]

namespace Combination

variable {lx : Lexicon} {ms : List Modifier} {r : Role}

/-- At most two modifiers edit a role; of two, the second alters what the first gave. -/
theorem editing_cases (hof : lx.OrderFree) (hms : ∀ m ∈ ms, m.rule ∈ lx.rules)
    (hc : Compatible ms) (r : Role) : editing r ms = [] ∨ (∃ x, editing r ms = [x]) ∨
      ∃ x y, editing r ms = [x, y] ∧ x.rule.category ≠ .alteration ∧
        y.rule.category = .alteration := by
  have hchain := hc.roles r
  have hmem : ∀ m ∈ editing r ms, m.rule ∈ lx.rules ∧ m.rule.touches r = true := by
    intro m hm
    obtain ⟨hm, hr⟩ := mem_editing.1 hm
    exact ⟨hms m hm, hr⟩
  cases hed : editing r ms with
  | nil => exact .inl rfl
  | cons x rest =>
    cases rest with
    | nil => exact .inr (.inl ⟨x, rfl⟩)
    | cons y rest =>
      rw [hed] at hchain hmem
      obtain ⟨hxy, hrest⟩ := List.isChain_cons_cons.1 hchain
      have hx := hmem x (by simp)
      have hy := hmem y (by simp)
      cases rest with
      | nil => exact .inr (.inr ⟨x, y, rfl, hxy.category_ne hof hx.1 hx.2, hxy.alteration⟩)
      | cons z rest =>
        have hyz := (List.isChain_cons_cons.1 hrest).1
        exact absurd hxy.alteration (hyz.category_ne hof hy.1 hy.2)

theorem filter_grounds_perm (ms : List Modifier) (r : Role) :
    (ms.filter (Modifier.grounds r)).Perm
      ((editing r ms).filter (·.rule.category ≠ .alteration)) := by
  have h := (filter_touches_perm ms r).filter (·.rule.category ≠ .alteration)
  rwa [List.filter_filter] at h

theorem filter_alters_perm (ms : List Modifier) (r : Role) :
    (ms.filter (Modifier.alters r)).Perm
      ((editing r ms).filter (·.rule.category = .alteration)) := by
  have h := (filter_touches_perm ms r).filter (·.rule.category = .alteration)
  rwa [List.filter_filter] at h

theorem length_filter_editing (hof : lx.OrderFree) (hms : ∀ m ∈ ms, m.rule ∈ lx.rules)
    (hc : Compatible ms) (r : Role) :
    ((editing r ms).filter (·.rule.category ≠ .alteration)).length ≤ 1 ∧
      ((editing r ms).filter (·.rule.category = .alteration)).length ≤ 1 := by
  rcases editing_cases hof hms hc r with h | ⟨x, h⟩ | ⟨x, y, h, hx, hy⟩
  · simp [h]
  · rw [h]
    exact ⟨List.length_filter_le _ _, List.length_filter_le _ _⟩
  · simp [h, hx, hy]

/-- The editors of a role are the one that grounds it and the one that alters it. -/
theorem editing_eq (hof : lx.OrderFree) (hms : ∀ m ∈ ms, m.rule ∈ lx.rules)
    (hc : Compatible ms) (r : Role) : editing r ms =
      (ms.find? (Modifier.grounds r)).toList ++ (ms.find? (Modifier.alters r)).toList := by
  obtain ⟨hg, ha⟩ := length_filter_editing hof hms hc r
  rw [find?_eq_of_filter_perm (filter_grounds_perm ms r) hg,
    find?_eq_of_filter_perm (filter_alters_perm ms r) ha]
  rcases editing_cases hof hms hc r with h | ⟨x, h⟩ | ⟨x, y, h, hx, hy⟩
  · rw [h]
    rfl
  · by_cases hx : x.rule.category = .alteration <;> simp [h, hx]
  · simp [h, hx, hy]

end Combination

namespace Lexicon

theorem standard_nodup : ∀ u ∈ standard.rules, (u.edits.map (·.role)).Nodup := by decide

theorem standard_backed : ∀ u ∈ standard.rules, Edit.backed [.root] u.edits = true := by decide

theorem standard_grounds : ∀ u ∈ standard.rules, u.category ≠ .alteration → ∀ e ∈ u.edits,
    e.kind = .replace ∨ e.kind = .add := by decide

theorem standard_alters : ∀ u ∈ standard.rules, u.category = .alteration → ∀ e ∈ u.edits,
    e.kind = .modify ∨ e.kind = .remove := by decide

theorem implied_standard : standard.implied = .majorTriad := by decide

theorem get?_start_standard (ms : List Modifier) (r : Role) :
    (standard.start ms).get? r = Modifier.unwritten ms r := by
  unfold start Modifier.unwritten
  rw [implied_standard]
  cases ms.any (·.rule.category.isQualityClass) <;> cases r <;> rfl

variable {ms : List Modifier}

theorem backfilled_standard (hms : ∀ m ∈ ms, m.rule ∈ standard.rules) :
    ∀ s ∈ Step.ofEdits (standard.start ms) (Modifier.edits ms), s.backfilled = [] := by
  refine Modifier.backfilled_of_backed [.root] _ ?_ ?_
  · intro q hq
    rw [List.mem_singleton.1 hq, get?_start_standard]
    exact Option.some_ne_none 0
  · intro m hm
    exact standard_backed m.rule (hms m (Modifier.mem_inOrder.1 hm))

/-- No amount is near the ends of what is held. -/
theorem amount_small : ∀ u ∈ standard.rules, ∀ e ∈ u.edits, ∀ x, e.amount? = some x →
    -1 ≤ x ∧ x ≤ 21 := by decide

theorem natural_of_unwritten (ms : List Modifier) (r : Role) :
    (Modifier.unwritten ms r).getD r.natural = r.natural := by
  unfold Modifier.unwritten
  cases ms.any (·.rule.category.isQualityClass) <;> cases r <;> rfl

theorem natural_small (r : Role) : -1 ≤ r.natural ∧ r.natural ≤ 21 := by cases r <;> decide

theorem ground_small (hms : ∀ m ∈ ms, m.rule ∈ standard.rules) (r : Role) :
    -1 ≤ (Modifier.ground ms r).getD r.natural ∧ (Modifier.ground ms r).getD r.natural ≤ 21 := by
  unfold Modifier.ground
  cases hm : ms.find? (Modifier.grounds r) with
  | none =>
    simp only
    rw [natural_of_unwritten]
    exact natural_small r
  | some m =>
    obtain ⟨hmem, hcat, e, he, rfl, hedit⟩ := Modifier.edit_of_find?_grounds hm
    simp only [hedit, Option.bind_some]
    cases hx : e.written? with
    | none => exact natural_small e.role
    | some x => exact amount_small m.rule (hms m hmem) e he x (Edit.amount?_of_written? hx)

/-- A shift of what sounds is held as it is. -/
theorem shift_standard (hms : ∀ m ∈ ms, m.rule ∈ standard.rules) {m : Modifier} (hm : m ∈ ms)
    {r : Role} {d : Int} (he : .modify r d ∈ m.rule.edits) :
    Semitones.sum ((Modifier.ground ms r).getD r.natural) d =
      (Modifier.ground ms r).getD r.natural + d := by
  have hground := ground_small hms r
  have hd := amount_small m.rule (hms m hm) _ he d rfl
  refine Semitones.sum_eq ?_
  unfold Semitones.Held
  omega

theorem foldl_grounds_standard (hms : ∀ m ∈ ms, m.rule ∈ standard.rules) (r : Role) :
    ((ms.find? (Modifier.grounds r)).toList.flatMap fun m => (m.rule.editOf? r).toList).foldl
      (Edit.effect r) (Modifier.unwritten ms r) = Modifier.ground ms r := by
  unfold Modifier.ground
  cases hm : ms.find? (Modifier.grounds r) with
  | none => rfl
  | some m =>
    obtain ⟨hmem, hcat, e, he, rfl, hedit⟩ := Modifier.edit_of_find?_grounds hm
    have hk := standard_grounds m.rule (hms m hmem) hcat e he
    simp only [Option.toList_some, List.flatMap_singleton, hedit, List.foldl_cons, List.foldl_nil,
      Option.bind_some]
    exact Edit.effect_eq_written? hk _

theorem get?_voicing_standard (hms : ∀ m ∈ ms, m.rule ∈ standard.rules)
    (hc : Combination.Compatible ms) (r : Role) :
    ((standard.start ms).applyAll ((Modifier.edits ms).map (·.2))).get? r =
      Modifier.sounding ms r := by
  have hown := Modifier.filter_edits (Modifier.inOrder ms)
    (fun m hm => standard_nodup m.rule (hms m (Modifier.mem_inOrder.1 hm))) r
  have hed := Combination.editing_eq orderFree_standard hms hc r
  unfold Combination.editing at hed
  rw [Voicing.get?_applyAll_own (backfilled_standard hms), Modifier.edits, hown, hed,
    List.flatMap_append, List.foldl_append, get?_start_standard, foldl_grounds_standard hms]
  unfold Modifier.sounding
  cases hm : ms.find? (Modifier.alters r) with
  | none => rfl
  | some m =>
    obtain ⟨hmem, hcat, e, he, rfl, hedit⟩ := Modifier.edit_of_find?_alters hm
    have hk := standard_alters m.rule (hms m hmem) hcat e he
    simp only [Option.toList_some, List.flatMap_singleton, hedit, List.foldl_cons, List.foldl_nil,
      Option.bind_some]
    cases e with
    | modify q d => simpa [Edit.effect, Edit.role] using shift_standard hms hmem he
    | remove q => simp [Edit.effect, Edit.role]
    | replace q x => simp [Edit.kind] at hk
    | add q x => simp [Edit.kind] at hk

/-- A chord of the built-in lexicon, role by role. Each role has at most one modifier that grounds it
and one that alters it, these alone say what sounds, and no edit fills a role besides its own. -/
theorem derive_standard (ts : List Token) (h : ∃ us, standard.validate ts = .ok us) :
    ∃ ms d, standard.modifiers ts = .ok ms ∧ standard.derive ts = .ok d ∧
      (∀ r, (ms.filter (Modifier.grounds r)).length ≤ 1 ∧
        (ms.filter (Modifier.alters r)).length ≤ 1 ∧
        d.voicing.get? r = Modifier.sounding ms r) ∧
      ∀ s ∈ d.steps, s.backfilled = [] := by
  obtain ⟨us, hu⟩ := h
  obtain ⟨ms, hms, hc, -⟩ := Combination.validate_eq_ok.1 hu
  have hrules : ∀ m ∈ ms, m.rule ∈ standard.rules := fun m hm => rule_mem_of_modifiers hms hm
  refine ⟨ms, _, hms, derive_of_modifiers hms, ?_, backfilled_standard hrules⟩
  intro r
  obtain ⟨hg, ha⟩ := Combination.length_filter_editing orderFree_standard hrules hc r
  rw [(Combination.filter_grounds_perm ms r).length_eq,
    (Combination.filter_alters_perm ms r).length_eq]
  exact ⟨hg, ha, get?_voicing_standard hrules hc r⟩

/-- A thirteenth chord without its third, the eleventh raised and the fifth lowered. -/
theorem derive_standard_thirteenth :
    (∃ us, standard.validate [⟨27, "no3"⟩, ⟨13, "13"⟩, ⟨24, "#11"⟩, ⟨20, "b5"⟩] = .ok us) ∧
    ∃ d, standard.derive [⟨27, "no3"⟩, ⟨13, "13"⟩, ⟨24, "#11"⟩, ⟨20, "b5"⟩] = .ok d ∧
      d.voicing.get? .third = none ∧ d.voicing.get? .fifth = some 6 ∧
      d.voicing.get? .eleventh = some 18 ∧ d.voicing.get? .thirteenth = some 21 := by
  have hok : standard.validate [⟨27, "no3"⟩, ⟨13, "13"⟩, ⟨24, "#11"⟩, ⟨20, "b5"⟩] =
      .ok [⟨27, "no3"⟩, ⟨13, "13"⟩, ⟨24, "#11"⟩, ⟨20, "b5"⟩] := by cbv
  obtain ⟨ms, d, hms, hd, hr, -⟩ := derive_standard _ ⟨_, hok⟩
  cases hms
  refine ⟨⟨_, hok⟩, d, hd, ?_, ?_, ?_, ?_⟩
  · rw [(hr .third).2.2]
    rfl
  · rw [(hr .fifth).2.2]
    rfl
  · rw [(hr .eleventh).2.2]
    rfl
  · rw [(hr .thirteenth).2.2]
    rfl

end Lexicon
end ChordSymbol
