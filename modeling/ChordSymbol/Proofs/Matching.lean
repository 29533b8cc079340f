import ChordSymbol.Proofs.Stages
import Mathlib.Data.List.Forall2

/-! Lists of modifiers that match place by place, the spellings of each pair being related in some way.
Rules are what is looked at; a spelling counts only as a companion, and is else but repeated. So lists
that match are accepted or refused alike, and what is said of them matches as well. -/
namespace ChordSymbol

/-- Modifiers that ask for the same, do the same and are the same company. -/
structure Modifier.Matches (P : String → String → Prop) (m n : Modifier) : Prop where
  spelling : P m.token.symbol n.token.symbol
  company : ∀ q : Requirement, q.isMetBy m.rule m.token.symbol = q.isMetBy n.rule n.token.symbol
  category : m.rule.category = n.rule.category
  edits : m.rule.edits = n.rule.edits
  priority : m.rule.priority = n.rule.priority
  requires : m.rule.requires = n.rule.requires
  excludes : m.rule.excludes = n.rule.excludes

/-- Tokens of two lexicons that stand for modifiers that match. -/
def Token.Matches (P : String → String → Prop) (lx lx' : Lexicon) (t t' : Token) : Prop :=
  ∃ m n, lx.modifier t = .ok m ∧ lx'.modifier t' = .ok n ∧ m.Matches P n

/-- Refusals of one kind that differ in the spellings they name at most. -/
inductive Refusal.Matches (P : String → String → Prop) : Refusal → Refusal → Prop
  | conflictingQuality {s s' t t' : String} (hs : P s s') (ht : P t t') :
    Matches P (.conflictingQuality s t) (.conflictingQuality s' t')
  | conflictingRole (r : Role) {s s' t t' : String} (hs : P s s') (ht : P t t') :
    Matches P (.conflictingRole r s t) (.conflictingRole r s' t')
  | excludedCombination (c : Category) {s s' : String} (hs : P s s') :
    Matches P (.excludedCombination s c) (.excludedCombination s' c)
  | missingRequirement (q : Requirement) {s s' : String} (hs : P s s') :
    Matches P (.missingRequirement s q) (.missingRequirement s' q)

/-- Steps that differ at most in the spelling of the modifier that made the edit. -/
structure Step.Matches (P : String → String → Prop) (s s' : Step) : Prop where
  spelling : P s.symbol s'.symbol
  edit : s.edit = s'.edit
  before : s.before = s'.before
  after : s.after = s'.after
  backfilled : s.backfilled = s'.backfilled

/-- Both are refused, for reasons that `E` relates, or both succeed with results that `R` relates. -/
inductive Likewise {ε α β : Type} (E : ε → ε → Prop) (R : α → β → Prop) :
    Except ε α → Except ε β → Prop
  | error {e e' : ε} (h : E e e') : Likewise E R (.error e) (.error e')
  | ok {a : α} {b : β} (h : R a b) : Likewise E R (.ok a) (.ok b)

section Lists

variable {α β γ δ : Type} {R : α → β → Prop} {xs : List α} {ys : List β}

theorem exists_pairs (h : List.Forall₂ R xs ys) :
    ∃ ps : List (α × β), ps.map Prod.fst = xs ∧ ps.map Prod.snd = ys ∧ ∀ p ∈ ps, R p.1 p.2 := by
  induction h with
  | nil => exact ⟨[], rfl, rfl, by simp⟩
  | @cons x y xs ys hxy _ ih =>
    obtain ⟨ps, rfl, rfl, hps⟩ := ih
    exact ⟨(x, y) :: ps, rfl, rfl, List.forall_mem_cons.2 ⟨hxy, hps⟩⟩

theorem forall₂_of_pairs {ps : List (α × β)} (h : ∀ p ∈ ps, R p.1 p.2) :
    List.Forall₂ R (ps.map Prod.fst) (ps.map Prod.snd) := by
  rw [List.forall₂_map_left_iff, List.forall₂_map_right_iff]
  exact List.forall₂_same.2 h

/-- Searches that agree item by item come to the same. -/
theorem findSome?_rel {S : γ → δ → Prop} {f : α → Option γ} {g : β → Option δ}
    (h : List.Forall₂ (fun x y => Option.Rel S (f x) (g y)) xs ys) :
    Option.Rel S (xs.findSome? f) (ys.findSome? g) := by
  induction h with
  | nil => exact .none
  | @cons x y xs ys hxy _ ih =>
    rw [List.findSome?_cons, List.findSome?_cons]
    generalize f x = a, g y = b at hxy ⊢
    cases hxy with
    | none => exact ih
    | some hab => exact .some hab

end Lists

namespace Modifier

variable {P : String → String → Prop} {m n : Modifier} {ms ns : List Modifier}

theorem forall₂_inOrder (h : List.Forall₂ (Matches P) ms ns) :
    List.Forall₂ (Matches P) (inOrder ms) (inOrder ns) := by
  obtain ⟨ps, rfl, rfl, hps⟩ := exists_pairs h
  let le : Modifier × Modifier → Modifier × Modifier → Bool :=
    fun p q => p.1.rule.priority ≤ q.1.rule.priority
  have hfst : (ps.mergeSort le).map Prod.fst = inOrder (ps.map Prod.fst) :=
    List.map_mergeSort fun _ _ _ _ => rfl
  have hsnd : (ps.mergeSort le).map Prod.snd = inOrder (ps.map Prod.snd) := by
    refine List.map_mergeSort fun p hp q hq => ?_
    rw [← (hps p hp).priority, ← (hps q hq).priority]
  rw [← hfst, ← hsnd]
  exact forall₂_of_pairs fun p hp => hps p (List.mem_mergeSort.1 hp)

theorem forall₂_edits (h : List.Forall₂ (Matches P) ms ns) :
    List.Forall₂ (fun e f => P e.1 f.1 ∧ e.2 = f.2) (edits ms) (edits ns) := by
  unfold edits
  have hin := forall₂_inOrder h
  generalize inOrder ms = ms', inOrder ns = ns' at hin ⊢
  induction hin with
  | nil => exact .nil
  | cons hmn _ ih =>
    rw [List.flatMap_cons, List.flatMap_cons, ← hmn.edits]
    refine List.rel_append ?_ ih
    rw [List.forall₂_map_left_iff, List.forall₂_map_right_iff]
    exact List.forall₂_same.2 fun e _ => ⟨hmn.spelling, rfl⟩

theorem start_eq {lx lx' : Lexicon} (hi : lx.implied = lx'.implied)
    (h : List.Forall₂ (Matches P) ms ns) : lx.start ms = lx'.start ns := by
  have hany : ms.any (·.rule.category.isQualityClass) = ns.any (·.rule.category.isQualityClass) := by
    induction h with
    | nil => rfl
    | cons hmn _ ih => rw [List.any_cons, List.any_cons, ih, hmn.category]
  unfold Lexicon.start
  rw [hany, hi]

end Modifier

namespace Combination

open Modifier (Matches)

variable {P : String → String → Prop} {m n p o : Modifier} {ms ns kept kept' : List Modifier}
  {lx lx' : Lexicon} {t t' : Token} {ts ts' : List Token} {ledger ledger' : Ledger}

theorem exclusion?_matches (hm : m.Matches P n) (hp : p.Matches P o) :
    Option.Rel (Refusal.Matches P) (exclusion? m p) (exclusion? n o) := by
  unfold exclusion?
  rw [hm.excludes, hm.category, hp.excludes, hp.category]
  split
  · exact .some (.excludedCombination _ hm.spelling)
  · split
    · exact .some (.excludedCombination _ hp.spelling)
    · exact .none

theorem qualityConflict?_matches (hk : List.Forall₂ (Matches P) kept kept') (hm : m.Matches P n) :
    Option.Rel (Refusal.Matches P) (qualityConflict? kept m) (qualityConflict? kept' n) := by
  unfold qualityConflict?
  rw [hm.category]
  split
  · induction hk with
    | nil => exact .none
    | @cons p o _ _ hpo _ ih =>
      rw [List.find?_cons, List.find?_cons, hpo.category]
      cases o.rule.category.isQualityClass with
      | true => exact .some (.conflictingQuality hm.spelling hpo.spelling)
      | false => exact ih
  · exact .none

theorem keep_matches (hk : List.Forall₂ (Matches P) kept kept') (ht : t.Matches P lx lx' t') :
    Likewise (Refusal.Matches P) (List.Forall₂ (Matches P)) (keep lx kept t) (keep lx' kept' t') := by
  obtain ⟨m, n, hm, hn, hmn⟩ := ht
  have hquality := qualityConflict?_matches hk hmn
  have hexclusion : Option.Rel (Refusal.Matches P)
      (kept.findSome? (exclusion? m)) (kept'.findSome? (exclusion? n)) :=
    findSome?_rel (hk.imp fun _ _ hpo => exclusion?_matches hmn hpo)
  unfold keep
  rw [hm, hn]
  simp only
  generalize qualityConflict? kept m = x, qualityConflict? kept' n = y at hquality ⊢
  cases hquality with
  | some he => exact .error he
  | none =>
    simp only
    generalize kept.findSome? (exclusion? m) = x, kept'.findSome? (exclusion? n) = y at hexclusion ⊢
    cases hexclusion with
    | some he => exact .error he
    | none => exact .ok (List.rel_append hk (.cons hmn .nil))

theorem keepAll_matches (hk : List.Forall₂ (Matches P) kept kept')
    (h : List.Forall₂ (Token.Matches P lx lx') ts ts') :
    Likewise (Refusal.Matches P) (List.Forall₂ (Matches P))
      (keepAll lx kept ts) (keepAll lx' kept' ts') := by
  induction h generalizing kept kept' with
  | nil => exact .ok hk
  | @cons t t' ts ts' ht _ ih =>
    have hstep := keep_matches hk ht
    unfold keepAll
    generalize keep lx kept t = x, keep lx' kept' t' = y at hstep ⊢
    cases hstep with
    | error he => exact .error he
    | ok hkept => exact ih hkept

/-- Entries of a ledger that differ in the spelling of the modifier at most. -/
structure LastEdit.Matches (P : String → String → Prop) (t t' : LastEdit) : Prop where
  spelling : P t.symbol t'.symbol
  kind : t.kind = t'.kind
  category : t.category = t'.category

theorem roleConflict?_matches (hl : ∀ r, Option.Rel (LastEdit.Matches P) (ledger r) (ledger' r))
    (hm : m.Matches P n) :
    Option.Rel (Refusal.Matches P) (roleConflict? ledger m) (roleConflict? ledger' n) := by
  unfold roleConflict?
  rw [← hm.edits, ← hm.category]
  refine findSome?_rel (List.forall₂_same.2 fun e _ => ?_)
  have hrole := hl e.role
  generalize ledger e.role = x, ledger' e.role = y at hrole ⊢
  cases hrole with
  | none => exact .none
  | @some t t' ht =>
    have hallows : t.allows m.rule.category e.kind = t'.allows m.rule.category e.kind := by
      simp only [LastEdit.allows, ht.kind, ht.category]
    simp only [hallows]
    split
    · exact .none
    · exact .some (.conflictingRole _ hm.spelling ht.spelling)

theorem record_matches (hl : ∀ r, Option.Rel (LastEdit.Matches P) (ledger r) (ledger' r))
    (hm : m.Matches P n) (r : Role) :
    Option.Rel (LastEdit.Matches P) (record ledger m r) (record ledger' n r) := by
  rw [record_apply, record_apply]
  unfold lastEdit? Rule.lastKind?
  rw [← hm.edits, ← hm.category]
  cases (m.rule.edits.filter (·.role = r)).getLast? with
  | none => exact hl r
  | some e => exact .some ⟨hm.spelling, rfl, rfl⟩

/-- The run: ledgers that match go on to match. -/
theorem replay_matches (hl : ∀ r, Option.Rel (LastEdit.Matches P) (ledger r) (ledger' r))
    (h : List.Forall₂ (Matches P) ms ns) :
    Option.Rel (Refusal.Matches P) (replay ledger ms) (replay ledger' ns) := by
  induction h generalizing ledger ledger' with
  | nil => exact .none
  | @cons m n _ _ hmn _ ih =>
    have hconflict := roleConflict?_matches hl hmn
    unfold replay
    generalize roleConflict? ledger m = x, roleConflict? ledger' n = y at hconflict ⊢
    cases hconflict with
    | some he => exact .some he
    | none => exact ih (record_matches hl hmn)

theorem missing?_matches (h : List.Forall₂ (Matches P) ms ns) :
    Option.Rel (Refusal.Matches P) (missing? ms) (missing? ns) := by
  obtain ⟨ps, rfl, rfl, hps⟩ := exists_pairs h
  unfold missing?
  rw [List.zipIdx_map, List.zipIdx_map, List.findSome?_map, List.findSome?_map]
  refine findSome?_rel (List.forall₂_same.2 fun e he => ?_)
  have hpair := hps e.1 (List.fst_mem_of_mem_zipIdx he)
  have hany : ∀ q : Requirement,
      ((ps.map Prod.fst).eraseIdx e.2).any (fun o => q.isMetBy o.rule o.token.symbol) =
        ((ps.map Prod.snd).eraseIdx e.2).any (fun o => q.isMetBy o.rule o.token.symbol) := by
    intro q
    rw [List.eraseIdx_map, List.eraseIdx_map, List.any_map, List.any_map, Bool.eq_iff_iff,
      List.any_eq_true, List.any_eq_true]
    refine exists_congr fun p => and_congr_right fun hp => ?_
    rw [Function.comp, Function.comp, (hps p (List.mem_of_mem_eraseIdx hp)).company q]
  simp only [Function.comp, Prod.map, id, hany, ← hpair.requires]
  refine findSome?_rel (List.forall₂_same.2 fun q _ => ?_)
  split
  · exact .none
  · exact .some (.missingRequirement q hpair.spelling)

theorem finish_matches (h : List.Forall₂ (Matches P) ms ns) :
    Likewise (Refusal.Matches P) (fun ts us => ts = ms.map (·.token) ∧ us = ns.map (·.token))
      (finish ms) (finish ns) := by
  have hreplay : Option.Rel (Refusal.Matches P) (replay (fun _ => none) (Modifier.inOrder ms))
      (replay (fun _ => none) (Modifier.inOrder ns)) :=
    replay_matches (fun _ => .none) (Modifier.forall₂_inOrder h)
  have hmissing := missing?_matches h
  unfold finish
  generalize replay (fun _ => none) (Modifier.inOrder ms) = x,
    replay (fun _ => none) (Modifier.inOrder ns) = y at hreplay ⊢
  cases hreplay with
  | some he => exact .error he
  | none =>
    simp only
    generalize missing? ms = x, missing? ns = y at hmissing ⊢
    cases hmissing with
    | some he => exact .error he
    | none => exact .ok ⟨rfl, rfl⟩

theorem validate_matches (h : List.Forall₂ (Token.Matches P lx lx') ts ts') :
    Likewise (Refusal.Matches P) (fun us us' => us = ts ∧ us' = ts')
      (lx.validate ts) (lx'.validate ts') := by
  have hkept := keepAll_matches .nil h
  unfold Lexicon.validate
  generalize hms : keepAll lx [] ts = x, hns : keepAll lx' [] ts' = y at hkept ⊢
  cases hkept with
  | error he => exact .error he
  | ok hmn =>
    obtain ⟨ms, hms', -, -, rfl⟩ := keepAll_eq_ok.1 hms
    obtain ⟨ns, hns', -, -, rfl⟩ := keepAll_eq_ok.1 hns
    rw [← Lexicon.map_token_of_modifiers hms', ← Lexicon.map_token_of_modifiers hns']
    exact finish_matches hmn

end Combination

namespace Step

variable {P : String → String → Prop} {es fs : List (String × Edit)}

theorem forall₂_ofEdits (v : Voicing)
    (h : List.Forall₂ (fun e f => P e.1 f.1 ∧ e.2 = f.2) es fs) :
    List.Forall₂ (Matches P) (ofEdits v es) (ofEdits v fs) := by
  induction h generalizing v with
  | nil => exact .nil
  | @cons e f _ _ hef _ ih =>
    obtain ⟨s, e⟩ := e
    obtain ⟨s', f⟩ := f
    obtain ⟨hs, rfl⟩ := hef
    exact .cons ⟨hs, rfl, rfl, rfl, rfl⟩ (ih (v.apply e))

end Step

namespace Lexicon

variable {P : String → String → Prop} {lx lx' : Lexicon} {ts ts' : List Token}

theorem modifiers_matches (h : List.Forall₂ (Token.Matches P lx lx') ts ts') : ∃ ms ns,
    lx.modifiers ts = .ok ms ∧ lx'.modifiers ts' = .ok ns ∧
      List.Forall₂ (Modifier.Matches P) ms ns := by
  induction h with
  | nil => exact ⟨[], [], rfl, rfl, .nil⟩
  | cons ht _ ih =>
    obtain ⟨m, n, hm, hn, hmn⟩ := ht
    obtain ⟨ms, ns, hms, hns, hall⟩ := ih
    exact ⟨m :: ms, n :: ns, modifiers_cons_eq_ok.2 ⟨m, ms, hm, hms, rfl⟩,
      modifiers_cons_eq_ok.2 ⟨n, ns, hn, hns, rfl⟩, .cons hmn hall⟩

/-- Tokens that match make one voicing, in steps that match. -/
theorem derive_matches (hi : lx.implied = lx'.implied)
    (h : List.Forall₂ (Token.Matches P lx lx') ts ts') : ∃ d d', lx.derive ts = .ok d ∧
      lx'.derive ts' = .ok d' ∧ d.voicing = d'.voicing ∧
      List.Forall₂ (Step.Matches P) d.steps d'.steps := by
  obtain ⟨ms, ns, hms, hns, hall⟩ := modifiers_matches h
  have hedits := Modifier.forall₂_edits hall
  have hsame : (Modifier.edits ms).map (·.2) = (Modifier.edits ns).map (·.2) := by
    rw [← List.forall₂_eq_eq_eq, List.forall₂_map_left_iff, List.forall₂_map_right_iff]
    exact hedits.imp fun _ _ hef => hef.2
  refine ⟨_, _, derive_of_modifiers hms, derive_of_modifiers hns, ?_, ?_⟩
  · rw [Modifier.start_eq hi hall, hsame]
  · rw [Modifier.start_eq hi hall]
    exact Step.forall₂_ofEdits _ hedits

end Lexicon
end ChordSymbol
