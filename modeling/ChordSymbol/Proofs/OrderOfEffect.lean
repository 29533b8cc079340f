import ChordSymbol.Derivation
import Mathlib.Data.List.Perm.Basic
import Mathlib.Data.List.Pairwise
import Mathlib.Data.List.Sort

/-! The modifiers that tokens stand for, and the order in which they take effect. The order is a
sort by priority, so what it does to two writings of one chord differs among equals alone. -/
namespace ChordSymbol

namespace Lexicon

variable {lx : Lexicon} {t : Token} {ts : List Token} {m : Modifier} {ms : List Modifier}

theorem modifier_eq_ok : lx.modifier t = .ok m ↔ m.token = t ∧ lx.rule? t.rule = some m.rule := by
  cases m with
  | mk token rule =>
    cases h : lx.rule? t.rule with
    | none => simp [modifier, h]
    | some r => simp [modifier, h, eq_comm]

@[simp] theorem modifiers_nil : lx.modifiers [] = .ok [] := rfl

theorem modifiers_cons_eq_ok : lx.modifiers (t :: ts) = .ok ms ↔
    ∃ m ns, lx.modifier t = .ok m ∧ lx.modifiers ts = .ok ns ∧ ms = m :: ns := by
  rw [modifiers, List.mapM_cons, ← modifiers]
  cases lx.modifier t with
  | error e => simp [bind, Except.bind]
  | ok m =>
    cases lx.modifiers ts with
    | error e => simp [bind, Except.bind]
    | ok ns => simp [bind, Except.bind, pure, Except.pure, eq_comm]

theorem map_token_of_modifiers (h : lx.modifiers ts = .ok ms) : ms.map (·.token) = ts := by
  induction ts generalizing ms with
  | nil => cases h; rfl
  | cons t ts ih =>
    obtain ⟨m, ns, hm, hns, rfl⟩ := modifiers_cons_eq_ok.1 h
    rw [List.map_cons, ih hns, (modifier_eq_ok.1 hm).1]

theorem rule?_of_modifiers (h : lx.modifiers ts = .ok ms) (hm : m ∈ ms) :
    lx.rule? m.token.rule = some m.rule := by
  induction ts generalizing ms with
  | nil => cases h; cases hm
  | cons t ts ih =>
    obtain ⟨n, ns, hn, hns, rfl⟩ := modifiers_cons_eq_ok.1 h
    obtain ⟨rfl, hr⟩ := modifier_eq_ok.1 hn
    rcases List.mem_cons.1 hm with rfl | hm
    · exact hr
    · exact ih hns hm

theorem rule_mem_of_modifiers (h : lx.modifiers ts = .ok ms) (hm : m ∈ ms) : m.rule ∈ lx.rules :=
  List.mem_of_getElem? (rule?_of_modifiers h hm)

/-- Tokens of rules that the table has are modifiers. -/
theorem exists_modifiers (h : ∀ t ∈ ts, t.rule < lx.size) : ∃ ms, lx.modifiers ts = .ok ms := by
  induction ts with
  | nil => exact ⟨[], rfl⟩
  | cons t ts ih =>
    obtain ⟨ns, hns⟩ := ih fun u hu => h u (List.mem_cons_of_mem t hu)
    have ht : t.rule < lx.rules.length := h t List.mem_cons_self
    have hm : lx.modifier t = .ok ⟨t, lx.rules[t.rule]⟩ :=
      modifier_eq_ok.2 ⟨rfl, List.getElem?_eq_getElem ht⟩
    exact ⟨_, modifiers_cons_eq_ok.2 ⟨_, ns, hm, hns, rfl⟩⟩

theorem modifiers_perm {ts' : List Token} (p : ts.Perm ts') (h : lx.modifiers ts = .ok ms) :
    ∃ ms', lx.modifiers ts' = .ok ms' ∧ ms.Perm ms' := by
  induction p generalizing ms with
  | nil => exact ⟨ms, h, List.Perm.refl ms⟩
  | cons t p ih =>
    obtain ⟨m, ns, hm, hns, rfl⟩ := modifiers_cons_eq_ok.1 h
    obtain ⟨ns', hns', pn⟩ := ih hns
    exact ⟨m :: ns', modifiers_cons_eq_ok.2 ⟨m, ns', hm, hns', rfl⟩, pn.cons m⟩
  | swap t u ts =>
    obtain ⟨m, ns, hm, hns, rfl⟩ := modifiers_cons_eq_ok.1 h
    obtain ⟨n, ks, hn, hks, rfl⟩ := modifiers_cons_eq_ok.1 hns
    have hmk := modifiers_cons_eq_ok.2 ⟨m, ks, hm, hks, rfl⟩
    exact ⟨n :: m :: ks, modifiers_cons_eq_ok.2 ⟨n, m :: ks, hn, hmk, rfl⟩, List.Perm.swap n m ks⟩
  | trans p q ihp ihq =>
    obtain ⟨ns, hns, pn⟩ := ihp h
    obtain ⟨ks, hks, qk⟩ := ihq hns
    exact ⟨ks, hks, pn.trans qk⟩

theorem modifiers_sublist {ts' : List Token} (hsub : ts'.Sublist ts) (h : lx.modifiers ts = .ok ms) :
    ∃ ms', lx.modifiers ts' = .ok ms' ∧ ms'.Sublist ms := by
  induction hsub generalizing ms with
  | slnil => exact ⟨[], rfl, List.nil_sublist ms⟩
  | cons t _ ih =>
    obtain ⟨m, ns, -, hns, rfl⟩ := modifiers_cons_eq_ok.1 h
    obtain ⟨ms', hms', hsub⟩ := ih hns
    exact ⟨ms', hms', hsub.cons m⟩
  | cons_cons t _ ih =>
    obtain ⟨m, ns, hm, hns, rfl⟩ := modifiers_cons_eq_ok.1 h
    obtain ⟨ms', hms', hsub⟩ := ih hns
    exact ⟨m :: ms', modifiers_cons_eq_ok.2 ⟨m, ms', hm, hms', rfl⟩, hsub.cons_cons m⟩

end Lexicon

section Sorting

variable {α : Type} {le : α → α → Bool} {a : α} {front back : List α}

/-- What is greater than all of `front` and at most all of `back` goes in between. -/
theorem orderedInsert_between (hfront : ∀ b ∈ front, le a b = false)
    (hback : ∀ b ∈ back, le a b = true) :
    (front ++ back).orderedInsert (le · · = true) a = front ++ a :: back := by
  induction front with
  | nil =>
    cases back with
    | nil => rfl
    | cons b back => simp [hback b List.mem_cons_self]
  | cons b front ih =>
    obtain ⟨hb, hfront⟩ := List.forall_mem_cons.1 hfront
    simp [hb, ih hfront]

/-- Both sorts are stable, so they agree even where different items tie. -/
theorem mergeSort_eq_insertionSort_of_total
    (trans : ∀ a b c, le a b = true → le b c = true → le a c = true)
    (total : ∀ a b, (le a b || le b a) = true) (l : List α) :
    l.mergeSort le = l.insertionSort (le · · = true) := by
  induction l with
  | nil => simp
  | cons a l ih =>
    obtain ⟨front, back, hsort, hrest, hfront⟩ := List.mergeSort_cons trans total a l
    have hsorted := List.pairwise_mergeSort trans total (a :: l)
    rw [hsort] at hsorted
    have hback := (List.pairwise_cons.1 (List.pairwise_append.1 hsorted).2.1).1
    rw [hsort, List.insertionSort_cons, ← ih, hrest]
    exact (orderedInsert_between (by simpa using hfront) hback).symm

/-- Items left out leave the order of the others as it is, even where different items tie. -/
theorem mergeSort_sublist (trans : ∀ a b c, le a b = true → le b c = true → le a c = true)
    (total : ∀ a b, (le a b || le b a) = true) {xs ys : List α} (h : xs.Sublist ys) :
    (xs.mergeSort le).Sublist (ys.mergeSort le) := by
  have : IsTrans α (le · · = true) := ⟨trans⟩
  have : Std.Total (α := α) (le · · = true) := ⟨fun a b => Bool.or_eq_true_iff.1 (total a b)⟩
  simp only [mergeSort_eq_insertionSort_of_total trans total]
  induction h with
  | slnil => exact List.Sublist.refl _
  | cons a _ ih => exact ih.trans (List.sublist_orderedInsert a _)
  | cons_cons a _ ih => exact ih.orderedInsert_sublist a (List.pairwise_insertionSort _ _)

end Sorting

namespace Modifier

variable {m : Modifier} {ms : List Modifier}

theorem inOrder_perm (ms : List Modifier) : (inOrder ms).Perm ms := List.mergeSort_perm ms _

@[simp] theorem mem_inOrder : m ∈ inOrder ms ↔ m ∈ ms := (inOrder_perm ms).mem_iff

theorem priority_trans (a b c : Modifier) (hab : decide (a.rule.priority ≤ b.rule.priority) = true)
    (hbc : decide (b.rule.priority ≤ c.rule.priority) = true) :
    decide (a.rule.priority ≤ c.rule.priority) = true := by
  rw [decide_eq_true_eq] at *
  exact Nat.le_trans hab hbc

theorem priority_total (a b : Modifier) : (decide (a.rule.priority ≤ b.rule.priority) ||
    decide (b.rule.priority ≤ a.rule.priority)) = true := by
  rw [Bool.or_eq_true, decide_eq_true_eq, decide_eq_true_eq]
  exact Nat.le_total _ _

theorem inOrder_sorted (ms : List Modifier) :
    (inOrder ms).Pairwise fun x y => x.rule.priority ≤ y.rule.priority := by
  have h : (inOrder ms).Pairwise fun x y => decide (x.rule.priority ≤ y.rule.priority) = true :=
    List.pairwise_mergeSort priority_trans priority_total ms
  simpa only [decide_eq_true_eq] using h

theorem inOrder_sublist {ns : List Modifier} (h : ns.Sublist ms) :
    (inOrder ns).Sublist (inOrder ms) := mergeSort_sublist priority_trans priority_total h

/-- Modifiers of one priority take effect as they were written. -/
theorem filter_priority_inOrder (ms : List Modifier) (p : Nat) :
    (inOrder ms).filter (·.rule.priority = p) = ms.filter (·.rule.priority = p) := by
  have htie : (ms.filter (·.rule.priority = p)).Pairwise fun x y =>
      decide (x.rule.priority ≤ y.rule.priority) = true := by
    refine List.pairwise_of_forall_mem_list fun x hx y hy => ?_
    have hxp : x.rule.priority = p := by simpa using (List.mem_filter.1 hx).2
    have hyp : y.rule.priority = p := by simpa using (List.mem_filter.1 hy).2
    simp [hxp, hyp]
  -- equals are sorted as they are, so the sort keeps them in their order among the others
  have hsub : (ms.filter (·.rule.priority = p)).Sublist (inOrder ms) :=
    List.sublist_mergeSort priority_trans priority_total htie List.filter_sublist
  have hfilter := hsub.filter (·.rule.priority = p)
  rw [List.filter_filter] at hfilter
  simp only [Bool.and_self] at hfilter
  exact (hfilter.eq_of_length ((inOrder_perm ms).filter _).length_eq.symm).symm

/-- Naming edits and forgetting the names gives the edits back. -/
theorem map_snd_edits (symbol : String) (es : List Edit) :
    (es.map (symbol, ·)).map (·.2) = es := by
  rw [List.map_map]
  exact List.map_id es

end Modifier

namespace Lexicon

variable {lx : Lexicon} {ts : List Token} {ms : List Modifier}

theorem derive_of_modifiers (h : lx.modifiers ts = .ok ms) : lx.derive ts = .ok
    ⟨(lx.start ms).applyAll ((Modifier.edits ms).map (·.2)),
      Step.ofEdits (lx.start ms) (Modifier.edits ms)⟩ := by
  unfold derive
  rw [h]

/-- A voicing is made modifier by modifier. -/
theorem applyAll_edits (v : Voicing) (ms : List Modifier) :
    v.applyAll ((Modifier.edits ms).map (·.2)) =
      (Modifier.inOrder ms).foldl (fun v m => v.applyAll m.rule.edits) v := by
  unfold Modifier.edits
  induction Modifier.inOrder ms generalizing v with
  | nil => rfl
  | cons m ns ih =>
    rw [List.flatMap_cons, List.map_append, Modifier.map_snd_edits, List.foldl_cons, ← ih]
    exact List.foldl_append

end Lexicon

section Fold

variable {α β : Type} {f : β → α → β} {key : α → Nat}

/-- An item that commutes with all before it may be taken first. -/
theorem foldl_bubble {x : α} {front : List α} (back : List α) (v : β)
    (h : ∀ y ∈ front, ∀ v, f (f v y) x = f (f v x) y) :
    (front ++ x :: back).foldl f v = (x :: (front ++ back)).foldl f v := by
  induction front generalizing v with
  | nil => rfl
  | cons y front ih =>
    have hy := h y List.mem_cons_self v
    have hf := ih (f v y) fun z hz => h z (List.mem_cons_of_mem y hz)
    rw [List.cons_append, List.foldl_cons, hf, List.foldl_cons, hy]
    rfl

/-- Two sorted writings of one list fold alike when items of one key commute. -/
theorem foldl_eq_of_sorted {xs ys : List α} (p : xs.Perm ys)
    (hx : xs.Pairwise fun a b => key a ≤ key b) (hy : ys.Pairwise fun a b => key a ≤ key b)
    (comm : ∀ a ∈ xs, ∀ b ∈ xs, key a = key b → ∀ v, f (f v a) b = f (f v b) a) (v : β) :
    xs.foldl f v = ys.foldl f v := by
  induction xs generalizing ys v with
  | nil => rw [p.nil_eq]
  | cons x xs ih =>
    obtain ⟨front, back, rfl⟩ := List.append_of_mem (p.subset List.mem_cons_self)
    have hx' := List.pairwise_cons.1 hx
    have hy' := List.pairwise_append.1 hy
    have pxs : xs.Perm (front ++ back) := (p.trans List.perm_middle).cons_inv
    -- what stands before `x` in the other writing is both at most and at least `x`
    have tie : ∀ y ∈ front, key y = key x := by
      intro y hyf
      have h₁ := hy'.2.2 y hyf x List.mem_cons_self
      have h₂ := hx'.1 y (pxs.mem_iff.2 (List.mem_append_left back hyf))
      exact Nat.le_antisymm h₁ h₂
    have swap : ∀ y ∈ front, ∀ v, f (f v y) x = f (f v x) y := by
      intro y hyf
      have hmem : y ∈ x :: xs := p.mem_iff.2 (List.mem_append_left _ hyf)
      exact comm y hmem x List.mem_cons_self (tie y hyf)
    rw [foldl_bubble back v swap, List.foldl_cons, List.foldl_cons]
    have hback : (front ++ back).Pairwise fun a b => key a ≤ key b :=
      List.pairwise_append.2 ⟨hy'.1, (List.pairwise_cons.1 hy'.2.1).2,
        fun a ha b hb => hy'.2.2 a ha b (List.mem_cons_of_mem x hb)⟩
    exact ih pxs hx'.2 hback
      (fun a ha b hb => comm a (List.mem_cons_of_mem x ha) b (List.mem_cons_of_mem x hb)) (f v x)

/-- A strictly sorted list is the only sorted writing of itself. -/
theorem eq_of_strictly_sorted {xs ys : List α} (p : xs.Perm ys)
    (hx : xs.Pairwise fun a b => key a < key b) (hy : ys.Pairwise fun a b => key a ≤ key b) :
    xs = ys := by
  let Same : α → α → Prop := fun a b => key a = key b → a = b
  have symm : Std.Symm Same := ⟨fun a b h e => (h e.symm).symm⟩
  have same : xs.Pairwise Same := hx.imp fun h e => absurd e (Nat.ne_of_lt h)
  have hx' : xs.Pairwise fun a b => key a ≤ key b := hx.imp Nat.le_of_lt
  refine p.eq_of_pairwise (fun a b ha hb hab hba => ?_) hx' hy
  exact same.forall_of_forall (fun _ _ _ => rfl) ha (p.mem_iff.2 hb) (Nat.le_antisymm hab hba)

end Fold
end ChordSymbol
