import ChordSymbol.Proofs.Rearrangement

/-! Which tables are lexicons, told by the places of their rules and spellings. Of two rules or spellings
it is never asked which comes first, so a lexicon may be listed in any order. -/
namespace ChordSymbol

/-- Where neither of two items has to come first, all pairs are those at different places. -/
theorem pairwise_iff_places {α : Type} {R : α → α → Prop} (symm : ∀ x y, R x y → R y x)
    {l : List α} : l.Pairwise R ↔
      ∀ (i j : Nat) x y, l[i]? = some x → l[j]? = some y → i ≠ j → R x y := by
  rw [List.pairwise_iff_getElem]
  constructor
  · intro h i j x y hx hy hij
    obtain ⟨hi, rfl⟩ := List.getElem?_eq_some_iff.1 hx
    obtain ⟨hj, rfl⟩ := List.getElem?_eq_some_iff.1 hy
    rcases Nat.lt_or_gt_of_ne hij with hlt | hlt
    · exact h i j hi hj hlt
    · exact symm _ _ (h j i hj hi hlt)
  · intro h i j hi hj hlt
    exact h i j _ _ (List.getElem?_eq_getElem hi) (List.getElem?_eq_getElem hj) (Nat.ne_of_lt hlt)

namespace Lexicon

variable {rules : List Rule}

/-- No rule is wrong by itself, and the rules agree with each other: one at most is the default, two
spellings that differ in letter case alone are of rules that insist on case, and what a rule needs a
rule at another place provides. -/
structure Coherent (rules : List Rule) : Prop where
  sound : ∀ r ∈ rules, r.Sound
  oneDefault : ∀ (i j : Nat) r u, rules[i]? = some r → rules[j]? = some u →
    r.isDefault = true → u.isDefault = true → i = j
  apart : ∀ s t : Spelling, s.In rules → t.In rules → s ≠ t →
    Text.lowercase s.symbol = Text.lowercase t.symbol →
    s.rule.caseSensitive = true ∧ t.rule.caseSensitive = true ∧ s.symbol ≠ t.symbol
  undotted : ∀ r ∈ rules, ∀ s, Requirement.symbol s ∈ r.requires → '.' ∉ s.toList
  provided : ∀ (i : Nat) r, rules[i]? = some r → ∀ q ∈ r.requires,
    ∃ (j : Nat) (o : Rule), j ≠ i ∧ rules[j]? = some o ∧ ∃ s ∈ o.symbols, q.isMetBy o s = true

theorem oneDefault_iff : (rules.Pairwise fun r u => ¬(r.isDefault = true ∧ u.isDefault = true)) ↔
    ∀ (i j : Nat) r u, rules[i]? = some r → rules[j]? = some u →
      r.isDefault = true → u.isDefault = true → i = j := by
  rw [pairwise_iff_places fun r u h hur => h ⟨hur.2, hur.1⟩]
  constructor
  · intro h i j r u hr hu hrd hud
    by_contra hij
    exact h i j r u hr hu hij ⟨hrd, hud⟩
  · rintro h i j r u hr hu hij ⟨hrd, hud⟩
    exact hij (h i j r u hr hu hrd hud)

theorem Coherent.wellFormed (h : Coherent rules) : WellFormed rules where
  sound := h.sound
  oneDefault := oneDefault_iff.2 h.oneDefault
  apart := by
    refine Spelling.pairwise_apart_iff.2 fun s t hs ht hne hlower => ?_
    obtain ⟨hscase, htcase, hsymbol⟩ := h.apart s t hs ht hne hlower
    exact ⟨hsymbol, hscase, htcase⟩
  provided := by
    rintro front r back rfl q hq
    obtain ⟨j, o, hj, hoj, hmet⟩ := h.provided front.length r (by simp) q hq
    refine ⟨fun s hs => h.undotted r (by simp) s (hs ▸ hq), o, ?_, hmet⟩
    exact Combination.mem_others_iff.2 ⟨j, hj, hoj⟩

theorem WellFormed.coherent (h : WellFormed rules) : Coherent rules where
  sound := h.sound
  oneDefault := oneDefault_iff.1 h.oneDefault
  apart := by
    intro s t hs ht hne hlower
    obtain ⟨hsymbol, hscase, htcase⟩ := Spelling.apart_of_ne h hs ht hne hlower
    exact ⟨hscase, htcase, hsymbol⟩
  undotted := by
    intro r hr s hs
    obtain ⟨front, back, rfl⟩ := List.append_of_mem hr
    exact (h.provided front r back rfl _ hs).undotted s rfl
  provided := by
    intro i r hr q hq
    obtain ⟨front, back, rfl, rfl⟩ := Combination.getElem?_eq_some_iff_split.1 hr
    obtain ⟨o, ho, hmet⟩ := (h.provided front r back rfl q hq).met
    obtain ⟨j, hj, hoj⟩ := Combination.mem_others_iff.1 ho
    exact ⟨j, o, hj, hoj, hmet⟩

theorem exists_ofRules_of_perm {rules' : List Rule} (p : rules.Perm rules')
    (h : ∃ lx, ofRules rules = .ok lx) : ∃ lx, ofRules rules' = .ok lx := by
  obtain ⟨lx, hlx⟩ := h
  have hsame : List.Forall₂ Rule.Respelled rules' rules' :=
    List.forall₂_same.2 fun r _ => ⟨r.symbols, List.Perm.refl _, rfl⟩
  have hrearranged : Rearranged rules rules' := ⟨rules', p, hsame⟩
  have hw := hrearranged.wellFormed (ofRules_iff_wellFormed.1 hlx).1
  exact ⟨⟨rules'⟩, ofRules_iff_wellFormed.2 ⟨hw, rfl⟩⟩

/-- The coherent tables are lexicons as they stand, and no others are; the order in which the rules
are listed has no part in it. -/
theorem ofRules_iff_coherent (rules : List Rule) :
    (∀ lx, ofRules rules = .ok lx ↔ Coherent rules ∧ lx.rules = rules) ∧
    ∀ rules', rules.Perm rules' →
      ((∃ lx, ofRules rules = .ok lx) ↔ ∃ lx, ofRules rules' = .ok lx) := by
  refine ⟨fun lx => ?_, fun rules' p => ⟨exists_ofRules_of_perm p, exists_ofRules_of_perm p.symm⟩⟩
  rw [ofRules_iff_wellFormed]
  constructor
  · rintro ⟨hw, rfl⟩
    exact ⟨hw.coherent, rfl⟩
  · rintro ⟨hc, rfl⟩
    exact ⟨hc.wellFormed, rfl⟩

/-- The built-in lexicon is coherent, and is one backwards as well. -/
theorem ofRules_iff_coherent_backwards : standard.rules.Perm standard.rules.reverse ∧
    Coherent standard.rules ∧ ∃ lx, ofRules standard.rules.reverse = .ok lx := by
  have hperm := (List.reverse_perm standard.rules).symm
  obtain ⟨hiff, horder⟩ := ofRules_iff_coherent standard.rules
  exact ⟨hperm, ((hiff _).1 ofRules_standard).1, (horder _ hperm).1 ⟨_, ofRules_standard⟩⟩

end Lexicon
end ChordSymbol
