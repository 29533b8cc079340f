import ChordSymbol.Proofs.Admission
import ChordSymbol.Proofs.Stages
import ChordSymbol.Proofs.Succession

/-! No modifier is accepted twice. Nothing looks for repetitions; but a rule never yields to itself, and
along a role every modifier yields to all after it. -/
namespace ChordSymbol

namespace Combination

/-- A rule that edits some role stands for one modifier at most. -/
theorem Compatible.rules_ne {ms : List Modifier} (hc : Compatible ms)
    (hedits : ∀ m ∈ ms, m.rule.edits ≠ []) : ms.Pairwise fun x y => x.rule ≠ y.rule := by
  refine List.pairwise_iff_forall_sublist.2 fun {x y} hxy heq => ?_
  obtain ⟨e, he⟩ := List.exists_mem_of_ne_nil _ (hedits x (hxy.subset (by simp)))
  have hx : x.rule.touches e.role = true := Rule.touches_iff.2 ⟨e, he, rfl⟩
  have hy : y.rule.touches e.role = true := heq ▸ hx
  have hediting : (editing e.role ms).Pairwise fun x y => x.rule ≠ y.rule :=
    (editing_pairwise hc e.role).imp_of_mem fun hm _ h => h.rule_ne (mem_editing.1 hm).2
  have hpair := hediting.perm (filter_touches_perm ms e.role).symm Ne.symm
  have hsub : List.Sublist [x, y] (ms.filter (·.rule.touches e.role)) := by
    simpa [hx, hy] using hxy.filter (·.rule.touches e.role)
  exact List.pairwise_iff_forall_sublist.1 hpair hsub heq

end Combination

namespace Lexicon

variable {lx : Lexicon} {ts us : List Token}

/-- All rules of a lexicon edit something. -/
theorem edits_ne_nil {rules : List Rule} (h : ofRules rules = .ok lx) :
    ∀ u ∈ lx.rules, u.edits ≠ [] := by
  obtain ⟨hw, rfl⟩ := ofRules_iff_wellFormed.1 h
  exact fun u hu => (hw.sound u hu).edits

theorem nodup_rules_of_validate (hedits : ∀ u ∈ lx.rules, u.edits ≠ [])
    (h : lx.validate ts = .ok us) : (ts.map (·.rule)).Nodup := by
  obtain ⟨ms, hms, hc, -⟩ := Combination.validate_eq_ok.1 h
  have hne := hc.rules_ne fun m hm => hedits m.rule (rule_mem_of_modifiers hms hm)
  rw [← map_token_of_modifiers hms, List.map_map, List.Nodup, List.pairwise_map]
  refine hne.imp_of_mem fun {x y} hx hy hxy heq => hxy (Option.some.inj ?_)
  rw [← rule?_of_modifiers hms hx, ← rule?_of_modifiers hms hy]
  exact congrArg lx.rule? heq

theorem length_le_size_of_validate (hedits : ∀ u ∈ lx.rules, u.edits ≠ [])
    (h : lx.validate ts = .ok us) : ts.length ≤ lx.size := by
  obtain ⟨ms, hms, -, -⟩ := Combination.validate_eq_ok.1 h
  have hsub : ts.map (·.rule) ⊆ List.range lx.size := by
    intro i hi
    obtain ⟨t, ht, rfl⟩ := List.mem_map.1 hi
    rw [← map_token_of_modifiers hms] at ht
    obtain ⟨m, hm, rfl⟩ := List.mem_map.1 ht
    exact List.mem_range.2 (List.getElem?_eq_some_iff.1 (rule?_of_modifiers hms hm)).1
  have hle := (nodup_rules_of_validate hedits h).length_le_of_subset hsub
  rwa [List.length_map, List.length_range] at hle

/-- Where all rules edit something, as those of a lexicon do, no rule is accepted twice, so a chord has
at most as many modifiers as there are rules. -/
theorem modifiers_distinct :
    (∀ rules lx, ofRules rules = .ok lx → ∀ u ∈ lx.rules, u.edits ≠ []) ∧
    ∀ lx : Lexicon, (∀ u ∈ lx.rules, u.edits ≠ []) →
      (∀ ts us, lx.validate ts = .ok us → (ts.map (·.rule)).Nodup) ∧
      ∀ separator symbol,
        (∀ r, (Interpreter.mk lx separator).resolve symbol = .ok r → r.tokens.length ≤ lx.size) ∧
        ∀ c, (Interpreter.mk lx separator).parse symbol = .ok c → c.modifiers.length ≤ lx.size := by
  refine ⟨fun rules lx => edits_ne_nil, fun lx hedits => ?_⟩
  have hresolve (separator symbol : String) (r : Reading)
      (hr : (Interpreter.mk lx separator).resolve symbol = .ok r) : r.tokens.length ≤ lx.size := by
    obtain ⟨suffix, -, -, hvalid⟩ := Interpreter.exists_stages hr
    exact length_le_size_of_validate hedits hvalid
  refine ⟨fun ts us => nodup_rules_of_validate hedits, fun separator symbol => ⟨hresolve _ _, ?_⟩⟩
  intro c hc
  cases hr : (Interpreter.mk lx separator).resolve symbol with
  | error e => cases hc.symm.trans (Interpreter.parse_of_refusal hr)
  | ok r =>
    obtain ⟨d, shown, -, -, hparse⟩ := Interpreter.exists_parse hr
    cases hc.symm.trans hparse
    exact (List.length_map _).trans_le (hresolve separator symbol r hr)

/-- Three ninths of three rules go together, but one cannot be added, shifted, and added once more. -/
theorem modifiers_distinct_ninths : (∀ u ∈ standard.rules, u.edits ≠ []) ∧
    (∀ u ∈ Combination.ninths.rules, u.edits ≠ []) ∧
    Combination.ninths.validate [⟨1, "alt"⟩, ⟨2, "#9"⟩, ⟨0, "9"⟩] =
      .ok [⟨1, "alt"⟩, ⟨2, "#9"⟩, ⟨0, "9"⟩] ∧
    ([⟨1, "alt"⟩, ⟨2, "#9"⟩, ⟨0, "9"⟩].map Token.rule).Nodup ∧
    ∀ us, Combination.ninths.validate [⟨1, "alt"⟩, ⟨2, "#9"⟩, ⟨1, "alt"⟩] ≠ .ok us := by
  have hedits : ∀ u ∈ Combination.ninths.rules, u.edits ≠ [] := by decide
  have hok : Combination.ninths.validate [⟨1, "alt"⟩, ⟨2, "#9"⟩, ⟨0, "9"⟩] =
      .ok [⟨1, "alt"⟩, ⟨2, "#9"⟩, ⟨0, "9"⟩] := by cbv
  have hnodup := (modifiers_distinct.2 Combination.ninths hedits).1
  refine ⟨modifiers_distinct.1 _ _ ofRules_standard, hedits, hok, hnodup _ _ hok, fun us hus => ?_⟩
  simpa using hnodup _ us hus

end Lexicon
end ChordSymbol
