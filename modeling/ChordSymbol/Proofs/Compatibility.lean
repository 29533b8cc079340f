import ChordSymbol.Combination
import ChordSymbol.Lexicon.Standard
import ChordSymbol.Proofs.OrderOfEffect
import Mathlib.Data.List.Chain
import Mathlib.Data.List.Permutation

/-! What it means that modifiers go together, said without an order of checks. Validation accepts
exactly such lists, and each of its refusals is true of the list it refuses. -/
namespace ChordSymbol

namespace Rule

/-- Whether the rule edits `r`. -/
def touches (u : Rule) (r : Role) : Bool := u.edits.any (·.role = r)

/-- The kind of the rule's last edit of `r`. -/
def lastKind? (u : Rule) (r : Role) : Option Edit.Kind :=
  ((u.edits.filter (·.role = r)).getLast?).map (·.kind)

theorem touches_iff {u : Rule} {r : Role} : u.touches r = true ↔ ∃ e ∈ u.edits, e.role = r := by
  simp [touches]

theorem exists_lastKind? {u : Rule} {r : Role} (h : u.touches r = true) :
    ∃ k, u.lastKind? r = some k := by
  obtain ⟨e, he, hr⟩ := touches_iff.1 h
  have hne : u.edits.filter (·.role = r) ≠ [] :=
    List.ne_nil_of_mem (List.mem_filter.2 ⟨he, by simpa using hr⟩)
  exact ⟨_, by rw [lastKind?, List.getLast?_eq_some_getLast hne]; rfl⟩

theorem exists_of_lastKind? {u : Rule} {r : Role} {k : Edit.Kind}
    (h : u.lastKind? r = some k) : ∃ e ∈ u.edits, e.role = r ∧ e.kind = k := by
  obtain ⟨e, he, rfl⟩ := Option.map_eq_some_iff.1 h
  obtain ⟨hmem, hr⟩ := List.mem_filter.1 (List.mem_of_getLast? he)
  exact ⟨e, hmem, by simpa using hr, rfl⟩

theorem lastKind?_eq_none {u : Rule} {r : Role} (h : u.touches r = false) :
    u.lastKind? r = none := by
  have hnil : u.edits.filter (·.role = r) = [] := by
    simpa [touches, List.filter_eq_nil_iff] using h
  rw [lastKind?, hnil]
  rfl

end Rule

namespace Combination

/-- Two modifiers that can stand in one chord, whatever they do to its roles. -/
structure Tolerates (x y : Modifier) : Prop where
  oneQuality : ¬(x.rule.category.isQualityClass = true ∧ y.rule.category.isQualityClass = true)
  left : y.rule.category ∉ x.rule.excludes
  right : x.rule.category ∉ y.rule.excludes

/-- What `y` has to be if `x` is the last before it to edit `r`. -/
structure Yields (r : Role) (x y : Modifier) : Prop where
  alteration : y.rule.category = .alteration
  present : x.rule.lastKind? r ≠ some .remove
  settled : x.rule.lastKind? r = some .replace ∨ x.rule.lastKind? r = some .modify →
    x.rule.category = .extension ∨ x.rule.category = .addition
  added : x.rule.lastKind? r = some .add → ∀ e ∈ y.rule.edits, e.role = r → e.kind ≠ .add

/-- The modifiers that edit `r`, in order of effect. -/
def editing (r : Role) (ms : List Modifier) : List Modifier :=
  (Modifier.inOrder ms).filter (·.rule.touches r)

theorem mem_editing {r : Role} {ms : List Modifier} {x : Modifier} :
    x ∈ editing r ms ↔ x ∈ ms ∧ x.rule.touches r = true := by
  simp [editing, List.mem_filter]

theorem filter_touches_perm (ms : List Modifier) (r : Role) :
    (ms.filter (·.rule.touches r)).Perm (editing r ms) :=
  (Modifier.inOrder_perm ms).symm.filter _

/-- Modifiers that go together; nothing in it depends on which of them is looked at first. -/
structure Compatible (ms : List Modifier) : Prop where
  oneQuality : (ms.filter (·.rule.category.isQualityClass)).length ≤ 1
  noExclusion : ms.Pairwise fun x y =>
    y.rule.category ∉ x.rule.excludes ∧ x.rule.category ∉ y.rule.excludes
  roles : ∀ r, (editing r ms).IsChain (Yields r)
  provided : ∀ front m back, ms = front ++ m :: back → ∀ q ∈ m.rule.requires,
    ∃ o ∈ front ++ back, q.isMetBy o.rule o.token.symbol = true

/-- What a refusal says of modifiers in the order written; `[x, y] <+ ms` puts `x` before `y`. -/
def Truthful (ms : List Modifier) : Refusal → Prop
  | .conflictingQuality symbol existing => ∃ x y, List.Sublist [x, y] ms ∧
      x.token.symbol = existing ∧ y.token.symbol = symbol ∧
      x.rule.category.isQualityClass = true ∧ y.rule.category.isQualityClass = true
  | .excludedCombination symbol category => ∃ x y,
      (List.Sublist [x, y] ms ∨ List.Sublist [y, x] ms) ∧
      x.token.symbol = symbol ∧ category ∈ x.rule.excludes ∧ y.rule.category = category
  | .conflictingRole r symbol existing => ∃ x y, List.Sublist [x, y] (Modifier.inOrder ms) ∧
      x.token.symbol = existing ∧ y.token.symbol = symbol ∧
      x.rule.touches r = true ∧ y.rule.touches r = true ∧ ¬Yields r x y
  | .missingRequirement symbol q => ∃ front m back, ms = front ++ m :: back ∧
      m.token.symbol = symbol ∧ q ∈ m.rule.requires ∧
      ∀ o ∈ front ++ back, q.isMetBy o.rule o.token.symbol = false
  | _ => False

section Keeping

variable {lx : Lexicon} {kept all : List Modifier} {m p : Modifier} {t : Token} {ts : List Token}
  {e : Refusal}

theorem qualityConflict?_eq_none : qualityConflict? kept m = none ↔ ∀ p ∈ kept,
    ¬(p.rule.category.isQualityClass = true ∧ m.rule.category.isQualityClass = true) := by
  by_cases hm : m.rule.category.isQualityClass = true
  · simp [qualityConflict?, hm]
  · simp [qualityConflict?, hm]

theorem qualityConflict?_eq_some (h : qualityConflict? kept m = some e) : ∃ p ∈ kept,
    p.rule.category.isQualityClass = true ∧ m.rule.category.isQualityClass = true ∧
      e = .conflictingQuality m.token.symbol p.token.symbol := by
  by_cases hm : m.rule.category.isQualityClass = true
  · rw [qualityConflict?, if_pos hm] at h
    obtain ⟨p, hp, rfl⟩ := Option.map_eq_some_iff.1 h
    have hq := List.find?_some hp
    exact ⟨p, List.mem_of_find?_eq_some hp, hq, hm, rfl⟩
  · simp [qualityConflict?, hm] at h

theorem exclusion?_eq_none : exclusion? m p = none ↔
    m.rule.category ∉ p.rule.excludes ∧ p.rule.category ∉ m.rule.excludes := by
  by_cases hm : p.rule.category ∈ m.rule.excludes
  · simp [exclusion?, hm]
  · by_cases hp : m.rule.category ∈ p.rule.excludes
    · simp [exclusion?, hm, hp]
    · simp [exclusion?, hm, hp]

theorem exclusion?_eq_some (h : exclusion? m p = some e) :
    (p.rule.category ∈ m.rule.excludes ∧
      e = .excludedCombination m.token.symbol p.rule.category) ∨
    (m.rule.category ∈ p.rule.excludes ∧
      e = .excludedCombination p.token.symbol m.rule.category) := by
  by_cases hm : p.rule.category ∈ m.rule.excludes
  · simp only [exclusion?, List.contains_iff_mem, if_pos hm] at h
    exact .inl ⟨hm, (Option.some.inj h).symm⟩
  · by_cases hp : m.rule.category ∈ p.rule.excludes
    · simp only [exclusion?, List.contains_iff_mem, if_neg hm, if_pos hp] at h
      exact .inr ⟨hp, (Option.some.inj h).symm⟩
    · simp [exclusion?, hm, hp] at h

/-- What comes before `y` in a list makes a pair with it. -/
theorem pair_sublist {α : Type} {x y : α} {front : List α} (back : List α) (h : x ∈ front) :
    List.Sublist [x, y] (front ++ y :: back) :=
  (List.singleton_sublist.2 h).append (List.singleton_sublist.2 List.mem_cons_self)

theorem keep_eq_ok : keep lx kept t = .ok all ↔
    ∃ m, lx.modifier t = .ok m ∧ (∀ p ∈ kept, Tolerates p m) ∧ all = kept ++ [m] := by
  unfold keep
  cases hm : lx.modifier t with
  | error e => simp
  | ok m =>
    simp only [Except.ok.injEq, exists_eq_left']
    cases hq : qualityConflict? kept m with
    | some e =>
      obtain ⟨p, hp, hpq, hmq, -⟩ := qualityConflict?_eq_some hq
      simp only [reduceCtorEq, false_iff, not_and]
      exact fun h _ => (h p hp).oneQuality ⟨hpq, hmq⟩
    | none =>
      have hq' := qualityConflict?_eq_none.1 hq
      cases hx : kept.findSome? (exclusion? m) with
      | some e =>
        obtain ⟨p, hp, hpe⟩ := List.exists_of_findSome?_eq_some hx
        simp only [reduceCtorEq, false_iff, not_and]
        intro h
        have hn : exclusion? m p = none := exclusion?_eq_none.2 ⟨(h p hp).left, (h p hp).right⟩
        rw [hn] at hpe
        cases hpe
      | none =>
        simp only [Except.ok.injEq]
        constructor
        · intro h
          refine ⟨fun p hp => ?_, h.symm⟩
          have hn := exclusion?_eq_none.1 (List.findSome?_eq_none_iff.1 hx p hp)
          exact ⟨hq' p hp, hn.1, hn.2⟩
        · exact fun h => h.2.symm

theorem keepAll_eq_ok : keepAll lx kept ts = .ok all ↔ ∃ ms, lx.modifiers ts = .ok ms ∧
    ms.Pairwise Tolerates ∧ (∀ p ∈ kept, ∀ m ∈ ms, Tolerates p m) ∧ all = kept ++ ms := by
  induction ts generalizing kept with
  | nil => simp [keepAll, eq_comm]
  | cons t ts ih =>
    constructor
    · intro h
      unfold keepAll at h
      cases hk : keep lx kept t with
      | error e => rw [hk] at h; cases h
      | ok kept' =>
        rw [hk] at h
        obtain ⟨m, hm, hpm, rfl⟩ := keep_eq_ok.1 hk
        obtain ⟨ms, hms, hpw, hcross, rfl⟩ := ih.1 h
        refine ⟨m :: ms, Lexicon.modifiers_cons_eq_ok.2 ⟨m, ms, hm, hms, rfl⟩, ?_, ?_, by simp⟩
        · exact List.pairwise_cons.2 ⟨fun n hn => hcross m (by simp) n hn, hpw⟩
        · intro p hp n hn
          rcases List.mem_cons.1 hn with rfl | hn
          · exact hpm p hp
          · exact hcross p (List.mem_append_left [m] hp) n hn
    · rintro ⟨ms, hms, hpw, hcross, rfl⟩
      obtain ⟨m, ns, hm, hns, rfl⟩ := Lexicon.modifiers_cons_eq_ok.1 hms
      have hpm : ∀ p ∈ kept, Tolerates p m := fun p hp => hcross p hp m List.mem_cons_self
      have hk : keep lx kept t = .ok (kept ++ [m]) := keep_eq_ok.2 ⟨m, hm, hpm, rfl⟩
      unfold keepAll
      rw [hk]
      refine ih.2 ⟨ns, hns, (List.pairwise_cons.1 hpw).2, ?_, by simp⟩
      intro p hp n hn
      rcases List.mem_append.1 hp with hp | hp
      · exact hcross p hp n (List.mem_cons_of_mem m hn)
      · rw [List.mem_singleton.1 hp]
        exact (List.pairwise_cons.1 hpw).1 n hn

/-- A run of checks stops at one modifier, over one of those before it. -/
theorem keepAll_eq_error {ms : List Modifier} (hms : lx.modifiers ts = .ok ms)
    (h : keepAll lx kept ts = .error e) : ∃ front m back, ms = front ++ m :: back ∧
      (qualityConflict? (kept ++ front) m = some e ∨
        ∃ p ∈ kept ++ front, exclusion? m p = some e) := by
  induction ts generalizing kept ms with
  | nil => cases h
  | cons t ts ih =>
    obtain ⟨m, ns, hm, hns, rfl⟩ := Lexicon.modifiers_cons_eq_ok.1 hms
    unfold keepAll at h
    cases hk : keep lx kept t with
    | ok kept' =>
      rw [hk] at h
      obtain ⟨m', hm', -, rfl⟩ := keep_eq_ok.1 hk
      cases hm.symm.trans hm'
      obtain ⟨front, n, back, rfl, he⟩ := ih hns h
      exact ⟨m :: front, n, back, rfl, by simpa using he⟩
    | error e' =>
      rw [hk] at h
      cases h
      refine ⟨[], m, ns, rfl, ?_⟩
      rw [List.append_nil]
      unfold keep at hk
      rw [hm] at hk
      cases hq : qualityConflict? kept m with
      | some e' =>
        simp only [hq] at hk
        cases hk
        exact .inl rfl
      | none =>
        simp only [hq] at hk
        cases hx : kept.findSome? (exclusion? m) with
        | some e' =>
          simp only [hx] at hk
          cases hk
          exact .inr (List.exists_of_findSome?_eq_some hx)
        | none => simp [hx] at hk

theorem truthful_of_keepAll {ms : List Modifier} (hms : lx.modifiers ts = .ok ms)
    (h : keepAll lx [] ts = .error e) : Truthful ms e := by
  obtain ⟨front, m, back, rfl, he⟩ := keepAll_eq_error hms h
  rcases he with hq | ⟨p, hp, hx⟩
  · obtain ⟨p, hp, hpq, hmq, rfl⟩ := qualityConflict?_eq_some hq
    exact ⟨p, m, pair_sublist back hp, rfl, rfl, hpq, hmq⟩
  · rcases exclusion?_eq_some hx with ⟨hc, rfl⟩ | ⟨hc, rfl⟩
    · exact ⟨m, p, .inr (pair_sublist back hp), rfl, hc, rfl⟩
    · exact ⟨p, m, .inl (pair_sublist back hp), rfl, hc, rfl⟩

end Keeping

section Replaying

variable {pre ms : List Modifier} {x m : Modifier} {r : Role} {t : LastEdit} {e : Refusal}

/-- What `m` leaves in the ledger for `r`. -/
def lastEdit? (m : Modifier) (r : Role) : Option LastEdit :=
  (m.rule.lastKind? r).map fun k => ⟨k, m.rule.category, m.token.symbol⟩

theorem record_apply (ledger : Ledger) (m : Modifier) (r : Role) :
    record ledger m r = (lastEdit? m r).or (ledger r) := by
  unfold record lastEdit? Rule.lastKind?
  induction m.rule.edits using List.reverseRecOn with
  | nil => rfl
  | append_singleton es e ih =>
    rw [List.foldl_append, List.foldl_cons, List.foldl_nil, List.filter_append]
    by_cases h : e.role = r
    · simp [h]
    · simp [h, Ne.symm h, ih]

/-- The ledger once `ms` are recorded. -/
def ledgerAfter (ms : List Modifier) : Ledger := ms.foldl record fun _ => none

theorem record_ledgerAfter (ms : List Modifier) (m : Modifier) :
    record (ledgerAfter ms) m = ledgerAfter (ms ++ [m]) := by
  rw [ledgerAfter, ledgerAfter, List.foldl_append]
  rfl

/-- Of the modifiers recorded, the ledger shows the last that edits a role. -/
theorem ledgerAfter_apply (ms : List Modifier) (r : Role) : ledgerAfter ms r =
    ((ms.filter (·.rule.touches r)).getLast?).bind (lastEdit? · r) := by
  induction ms using List.reverseRecOn with
  | nil => rfl
  | append_singleton ms m ih =>
    rw [← record_ledgerAfter, record_apply, ih, List.filter_append]
    cases h : m.rule.touches r with
    | false => simp [h, lastEdit?, Rule.lastKind?_eq_none h]
    | true =>
      obtain ⟨k, hk⟩ := Rule.exists_lastKind? h
      simp [h, lastEdit?, hk]

theorem yields_iff (ht : lastEdit? x r = some t) (hm : m.rule.touches r = true) : Yields r x m ↔
    ∀ e ∈ m.rule.edits, e.role = r → t.allows m.rule.category e.kind = true := by
  obtain ⟨k, hk, rfl⟩ := Option.map_eq_some_iff.1 ht
  obtain ⟨e, he, hr⟩ := Rule.touches_iff.1 hm
  constructor
  · intro h f hf hfr
    have ha := h.alteration
    cases k with
    | replace => simpa [LastEdit.allows, ha] using h.settled (.inl hk)
    | modify => simpa [LastEdit.allows, ha] using h.settled (.inr hk)
    | add => simpa [LastEdit.allows, ha] using h.added hk f hf hfr
    | remove => exact absurd hk h.present
  · intro h
    have hall := h e he hr
    simp only [LastEdit.allows, Bool.and_eq_true, decide_eq_true_eq] at hall
    refine ⟨hall.1, ?_, ?_, ?_⟩
    · intro hrem
      cases hk.symm.trans hrem
      simp at hall
    · rintro (hrep | hmod)
      · cases hk.symm.trans hrep
        simpa using hall.2
      · cases hk.symm.trans hmod
        simpa using hall.2
    · intro hadd f hf hfr
      cases hk.symm.trans hadd
      have hfall := h f hf hfr
      simpa [LastEdit.allows, hall.1] using hfall

theorem exists_lastEdit? (h : m.rule.touches r = true) : ∃ t, lastEdit? m r = some t ∧
    t.symbol = m.token.symbol := by
  obtain ⟨k, hk⟩ := Rule.exists_lastKind? h
  exact ⟨_, by rw [lastEdit?, hk]; rfl, rfl⟩

/-- One step of the replay: `m` is held against the last editor of each of its roles. -/
theorem roleConflict?_eq_none : roleConflict? (ledgerAfter pre) m = none ↔
    ∀ r, m.rule.touches r = true → ∀ x ∈ (pre.filter (·.rule.touches r)).getLast?, Yields r x m := by
  unfold roleConflict?
  rw [List.findSome?_eq_none_iff]
  constructor
  · intro h r hr x hx
    have hxr : x.rule.touches r = true := (List.mem_filter.1 (List.mem_of_getLast? hx)).2
    obtain ⟨t, ht, -⟩ := exists_lastEdit? hxr
    refine (yields_iff ht hr).2 fun e he her => ?_
    have hl : ledgerAfter pre e.role = some t := by
      rw [ledgerAfter_apply, her, Option.mem_def.1 hx, Option.bind_some, ht]
    have hn := h e he
    rw [hl] at hn
    simpa using hn
  · intro h e he
    have hm : m.rule.touches e.role = true := Rule.touches_iff.2 ⟨e, he, rfl⟩
    rw [ledgerAfter_apply]
    cases hx : (pre.filter (·.rule.touches e.role)).getLast? with
    | none => rfl
    | some x =>
      have hxr : x.rule.touches e.role = true := (List.mem_filter.1 (List.mem_of_getLast? hx)).2
      obtain ⟨t, ht, -⟩ := exists_lastEdit? hxr
      have ha := (yields_iff ht hm).1 (h e.role hm x hx) e he rfl
      simp [ht, ha]

theorem roleConflict?_eq_some (h : roleConflict? (ledgerAfter pre) m = some e) :
    ∃ r, ∃ x ∈ pre, x.rule.touches r = true ∧ m.rule.touches r = true ∧ ¬Yields r x m ∧
      e = .conflictingRole r m.token.symbol x.token.symbol := by
  unfold roleConflict? at h
  obtain ⟨f, hf, hfe⟩ := List.exists_of_findSome?_eq_some h
  have hm : m.rule.touches f.role = true := Rule.touches_iff.2 ⟨f, hf, rfl⟩
  rw [ledgerAfter_apply] at hfe
  cases hx : (pre.filter (·.rule.touches f.role)).getLast? with
  | none => simp [hx] at hfe
  | some x =>
    obtain ⟨hxp, hxr⟩ := List.mem_filter.1 (List.mem_of_getLast? hx)
    obtain ⟨t, ht, hs⟩ := exists_lastEdit? hxr
    rw [hx, Option.bind_some, ht] at hfe
    simp only [Option.ite_none_left_eq_some, Option.some.injEq] at hfe
    refine ⟨f.role, x, hxp, hxr, hm, fun hy => hfe.1 ((yields_iff ht hm).1 hy f hf rfl), ?_⟩
    rw [← hfe.2, hs]

theorem roleConflict?_eq_none_iff_chain
    (h : ∀ r, (pre.filter (·.rule.touches r)).IsChain (Yields r)) :
    roleConflict? (ledgerAfter pre) m = none ↔
      ∀ r, ((pre ++ [m]).filter (·.rule.touches r)).IsChain (Yields r) := by
  rw [roleConflict?_eq_none]
  refine forall_congr' fun r => ?_
  rw [List.filter_append, List.isChain_append]
  cases hr : m.rule.touches r with
  | false => simp [hr, h r]
  | true => simp [hr, h r]

/-- The run: a replay goes through exactly if along every role each modifier yields to the next. -/
theorem replay_eq_none (pre : List Modifier)
    (h : ∀ r, (pre.filter (·.rule.touches r)).IsChain (Yields r)) :
    replay (ledgerAfter pre) ms = none ↔
      ∀ r, ((pre ++ ms).filter (·.rule.touches r)).IsChain (Yields r) := by
  induction ms generalizing pre with
  | nil => simpa [replay] using h
  | cons m ms ih =>
    have hstep := roleConflict?_eq_none_iff_chain (m := m) h
    have happ : pre ++ m :: ms = (pre ++ [m]) ++ ms := by simp
    unfold replay
    cases hc : roleConflict? (ledgerAfter pre) m with
    | none => rw [happ, ← ih (pre ++ [m]) (hstep.1 hc), ← record_ledgerAfter]
    | some e =>
      simp only [reduceCtorEq, false_iff]
      intro hall
      have hpre : ∀ r, ((pre ++ [m]).filter (·.rule.touches r)).IsChain (Yields r) := by
        intro r
        have hr := hall r
        rw [happ, List.filter_append] at hr
        exact hr.left_of_append
      rw [hstep.2 hpre] at hc
      cases hc

theorem replay_eq_some (pre : List Modifier) (h : replay (ledgerAfter pre) ms = some e) :
    ∃ r x y, List.Sublist [x, y] (pre ++ ms) ∧ x.rule.touches r = true ∧
      y.rule.touches r = true ∧ ¬Yields r x y ∧
      e = .conflictingRole r y.token.symbol x.token.symbol := by
  induction ms generalizing pre with
  | nil => cases h
  | cons m ms ih =>
    unfold replay at h
    cases hc : roleConflict? (ledgerAfter pre) m with
    | some e' =>
      rw [hc] at h
      cases h
      obtain ⟨r, x, hx, hxr, hmr, hn, rfl⟩ := roleConflict?_eq_some hc
      exact ⟨r, x, m, pair_sublist ms hx, hxr, hmr, hn, rfl⟩
    | none =>
      simp only [hc, record_ledgerAfter] at h
      simpa using ih (pre ++ [m]) h

end Replaying

section Companions

variable {α : Type} {l : List α} {x : α} {i : Nat} {ms : List Modifier} {e : Refusal}

theorem getElem?_eq_some_iff_split : l[i]? = some x ↔
    ∃ front back, l = front ++ x :: back ∧ i = front.length := by
  constructor
  · intro h
    obtain ⟨hi, hx⟩ := List.getElem?_eq_some_iff.1 h
    refine ⟨l.take i, l.drop (i + 1), ?_, by rw [List.length_take]; omega⟩
    rw [← hx, ← List.drop_eq_getElem_cons hi, List.take_append_drop]
  · rintro ⟨front, back, rfl, rfl⟩
    simp

theorem mem_zipIdx_iff_split : (x, i) ∈ l.zipIdx ↔
    ∃ front back, l = front ++ x :: back ∧ i = front.length := by
  rw [List.mk_mem_zipIdx_iff_getElem?, getElem?_eq_some_iff_split]

theorem eraseIdx_split (front back : List α) (x : α) :
    (front ++ x :: back).eraseIdx front.length = front ++ back := by
  simp [List.eraseIdx_append_of_length_le]

/-- What stands beside one item of a list stands at another place of it. -/
theorem mem_others_iff {o : α} {front back : List α} :
    o ∈ front ++ back ↔ ∃ j, j ≠ front.length ∧ (front ++ x :: back)[j]? = some o := by
  rw [← eraseIdx_split front back x, List.mem_eraseIdx_iff_getElem?]

theorem missing?_eq_none : missing? ms = none ↔ ∀ front m back, ms = front ++ m :: back →
    ∀ q ∈ m.rule.requires, ∃ o ∈ front ++ back, q.isMetBy o.rule o.token.symbol = true := by
  unfold missing?
  rw [List.findSome?_eq_none_iff]
  constructor
  · rintro h front m back rfl q hq
    have hn := h (m, front.length) (mem_zipIdx_iff_split.2 ⟨front, back, rfl, rfl⟩)
    have hqn := List.findSome?_eq_none_iff.1 hn q hq
    simp only [eraseIdx_split, ite_eq_left_iff, reduceCtorEq, imp_false, not_not] at hqn
    exact List.any_eq_true.1 hqn
  · rintro h ⟨m, i⟩ hmi
    obtain ⟨front, back, rfl, rfl⟩ := mem_zipIdx_iff_split.1 hmi
    refine List.findSome?_eq_none_iff.2 fun q hq => ?_
    have hex := h front m back rfl q hq
    simp only [eraseIdx_split, ite_eq_left_iff, reduceCtorEq, imp_false, not_not]
    exact List.any_eq_true.2 hex

theorem missing?_eq_some (h : missing? ms = some e) : ∃ front m back, ms = front ++ m :: back ∧
    ∃ q ∈ m.rule.requires, (∀ o ∈ front ++ back, q.isMetBy o.rule o.token.symbol = false) ∧
      e = .missingRequirement m.token.symbol q := by
  unfold missing? at h
  obtain ⟨⟨m, i⟩, hmi, hm⟩ := List.exists_of_findSome?_eq_some h
  obtain ⟨q, hq, hqe⟩ := List.exists_of_findSome?_eq_some hm
  obtain ⟨front, back, rfl, rfl⟩ := mem_zipIdx_iff_split.1 hmi
  rw [eraseIdx_split] at hqe
  simp only [Option.ite_none_left_eq_some, Option.some.injEq, List.any_eq_true, not_exists, not_and,
    Bool.not_eq_true] at hqe
  exact ⟨front, m, back, rfl, q, hq, hqe.1, hqe.2.symm⟩

end Companions

section Validating

variable {lx : Lexicon} {ts us : List Token} {ms : List Modifier} {e : Refusal}

theorem replay_inOrder_eq_none : replay (fun _ => none) (Modifier.inOrder ms) = none ↔
    ∀ r, (editing r ms).IsChain (Yields r) :=
  replay_eq_none [] fun _ => List.isChain_nil

theorem finish_eq_ok : finish ms = .ok us ↔ (∀ r, (editing r ms).IsChain (Yields r)) ∧
    missing? ms = none ∧ us = ms.map (·.token) := by
  rw [← replay_inOrder_eq_none]
  unfold finish
  cases hr : replay (fun _ => none) (Modifier.inOrder ms) with
  | some e => simp
  | none =>
    cases hm : missing? ms with
    | some e => simp
    | none => simp [eq_comm]

/-- The replay speaks first, then the companions. -/
theorem finish_eq_error (h : finish ms = .error e) :
    replay (fun _ => none) (Modifier.inOrder ms) = some e ∨ missing? ms = some e := by
  unfold finish at h
  cases hr : replay (fun _ => none) (Modifier.inOrder ms) with
  | some e' =>
    rw [hr] at h
    cases h
    exact .inl rfl
  | none =>
    rw [hr] at h
    cases hm : missing? ms with
    | some e' =>
      simp only [hm] at h
      cases h
      exact .inr rfl
    | none => simp [hm] at h

theorem truthful_of_finish (h : finish ms = .error e) : Truthful ms e := by
  rcases finish_eq_error h with hr | hm
  · obtain ⟨r, x, y, hxy, hx, hy, hn, rfl⟩ := replay_eq_some [] hr
    exact ⟨x, y, hxy, rfl, rfl, hx, hy, hn⟩
  · obtain ⟨front, m, back, rfl, q, hq, hn, rfl⟩ := missing?_eq_some hm
    exact ⟨front, m, back, rfl, rfl, hq, hn⟩

theorem length_filter_le_one_iff {α : Type} {p : α → Bool} {l : List α} :
    (l.filter p).length ≤ 1 ↔ l.Pairwise fun a b => ¬(p a = true ∧ p b = true) := by
  induction l with
  | nil => simp
  | cons a l ih =>
    rw [List.pairwise_cons, ← ih]
    cases ha : p a with
    | false => simp [ha]
    | true =>
      have hnone : (l.filter p).length = 0 ↔ ∀ b ∈ l, ¬(p b = true) := by
        rw [List.length_eq_zero_iff, List.filter_eq_nil_iff]
      rw [List.filter_cons_of_pos ha, List.length_cons]
      simp only [true_and]
      rw [← hnone]
      omega

theorem pairwise_tolerates_iff : ms.Pairwise Tolerates ↔
    (ms.filter (·.rule.category.isQualityClass)).length ≤ 1 ∧ ms.Pairwise fun x y =>
      y.rule.category ∉ x.rule.excludes ∧ x.rule.category ∉ y.rule.excludes := by
  rw [length_filter_le_one_iff, ← List.pairwise_and_iff]
  exact List.Pairwise.iff fun x y => ⟨fun h => ⟨h.oneQuality, h.left, h.right⟩,
    fun h => ⟨h.1, h.2.1, h.2.2⟩⟩

theorem Compatible.tolerates (hc : Compatible ms) : ms.Pairwise Tolerates :=
  pairwise_tolerates_iff.2 ⟨hc.oneQuality, hc.noExclusion⟩

/-- Where nothing else speaks against the modifiers, only companions are left to ask for. -/
theorem validate_eq_missing (hms : lx.modifiers ts = .ok ms) (hpair : ms.Pairwise Tolerates)
    (hroles : ∀ r, (editing r ms).IsChain (Yields r)) :
    lx.validate ts = (missing? ms).elim (.ok ts) .error := by
  have hkeep : keepAll lx [] ts = .ok ms := keepAll_eq_ok.2 ⟨ms, hms, hpair, by simp, rfl⟩
  rw [Lexicon.validate, hkeep]
  cases hm : missing? ms with
  | some e => simp [finish, replay_inOrder_eq_none.2 hroles, hm]
  | none => simp [finish, replay_inOrder_eq_none.2 hroles, hm, Lexicon.map_token_of_modifiers hms]

theorem validate_eq_ok : lx.validate ts = .ok us ↔
    ∃ ms, lx.modifiers ts = .ok ms ∧ Compatible ms ∧ us = ts := by
  constructor
  · intro h
    unfold Lexicon.validate at h
    cases hk : keepAll lx [] ts with
    | error e => rw [hk] at h; cases h
    | ok kept =>
      rw [hk] at h
      obtain ⟨ms, hms, hpw, -, hkept⟩ := keepAll_eq_ok.1 hk
      rw [hkept, List.nil_append] at h
      obtain ⟨hroles, hmiss, rfl⟩ := finish_eq_ok.1 h
      obtain ⟨hq, hx⟩ := pairwise_tolerates_iff.1 hpw
      exact ⟨ms, hms, ⟨hq, hx, hroles, missing?_eq_none.1 hmiss⟩, Lexicon.map_token_of_modifiers hms⟩
  · rintro ⟨ms, hms, hc, rfl⟩
    rw [validate_eq_missing hms hc.tolerates hc.roles, missing?_eq_none.2 hc.provided]
    rfl

theorem truthful_of_validate (hms : lx.modifiers ts = .ok ms) (h : lx.validate ts = .error e) :
    Truthful ms e := by
  unfold Lexicon.validate at h
  cases hk : keepAll lx [] ts with
  | error e' =>
    rw [hk] at h
    cases h
    exact truthful_of_keepAll hms hk
  | ok kept =>
    rw [hk] at h
    obtain ⟨ns, hns, -, -, hkept⟩ := keepAll_eq_ok.1 hk
    cases hms.symm.trans hns
    rw [hkept, List.nil_append] at h
    exact truthful_of_finish h

/-- Validation accepts exactly the lists of modifiers that go together, as they were written, and
what a refusal says is true. -/
theorem validate_iff_compatible (lx : Lexicon) (ts : List Token)
    (h : ∀ t ∈ ts, t.rule < lx.size) : ∃ ms, lx.modifiers ts = .ok ms ∧
      ((∃ us, lx.validate ts = .ok us) ↔ Compatible ms) ∧
      (∀ us, lx.validate ts = .ok us → us = ts) ∧
      ∀ e, lx.validate ts = .error e → Truthful ms e := by
  obtain ⟨ms, hms⟩ := Lexicon.exists_modifiers h
  refine ⟨ms, hms, ⟨?_, ?_⟩, ?_, fun e he => truthful_of_validate hms he⟩
  · rintro ⟨us, hu⟩
    obtain ⟨ns, hns, hc, -⟩ := validate_eq_ok.1 hu
    cases hms.symm.trans hns
    exact hc
  · intro hc
    exact ⟨ts, validate_eq_ok.2 ⟨ms, hms, hc, rfl⟩⟩
  · intro us hu
    obtain ⟨-, -, -, rfl⟩ := validate_eq_ok.1 hu
    rfl

/-- A seventh chord whose third is suspended and whose fifth is lowered. -/
theorem validate_iff_compatible_suspended :
    (∀ t ∈ [⟨9, "7"⟩, ⟨7, "sus4"⟩, (⟨20, "b5"⟩ : Token)], t.rule < Lexicon.standard.size) ∧
    ∃ ms, Lexicon.standard.modifiers [⟨9, "7"⟩, ⟨7, "sus4"⟩, ⟨20, "b5"⟩] = .ok ms ∧
      Compatible ms := by
  have hr : ∀ t ∈ [⟨9, "7"⟩, ⟨7, "sus4"⟩, (⟨20, "b5"⟩ : Token)], t.rule < Lexicon.standard.size := by
    decide
  have hok : Lexicon.standard.validate [⟨9, "7"⟩, ⟨7, "sus4"⟩, ⟨20, "b5"⟩] =
      .ok [⟨9, "7"⟩, ⟨7, "sus4"⟩, ⟨20, "b5"⟩] := by cbv
  obtain ⟨ms, hms, hiff, -, -⟩ := validate_iff_compatible Lexicon.standard _ hr
  exact ⟨hr, ms, hms, hiff.1 ⟨_, hok⟩⟩

end Validating
end Combination
end ChordSymbol
