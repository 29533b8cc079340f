import ChordSymbol.Proofs.Repetition

/-! Modifiers left out, and companions that cannot be had. All that a chord can lose by leaving some of
its modifiers out are companions that others need. A companion that no other rule provides is never
there: two modifiers of one rule could provide each other, but they never go together. -/
namespace ChordSymbol

namespace Combination

variable {ms ns : List Modifier}

/-- Editors that had others between them become neighbours, but each had yielded to all after it. -/
theorem Compatible.chain_sublist (hc : Compatible ms) (h : ns.Sublist ms) (r : Role) :
    (editing r ns).IsChain (Yields r) := by
  have hsub : (editing r ns).Sublist (editing r ms) := (Modifier.inOrder_sublist h).filter _
  exact ((editing_pairwise hc r).sublist hsub).isChain

/-- Whatever is left out of an accepted list, what remains is accepted or lacks a companion that one
of its modifiers needs. -/
theorem validate_sublist (lx : Lexicon) (ts us ts' : List Token) (h : lx.validate ts = .ok us)
    (hsub : ts'.Sublist ts) : lx.validate ts' = .ok ts' ∨
      ∃ t ∈ ts', ∃ u q, lx.rule? t.rule = some u ∧ q ∈ u.requires ∧
        lx.validate ts' = .error (.missingRequirement t.symbol q) := by
  obtain ⟨ms, hms, hc, -⟩ := validate_eq_ok.1 h
  obtain ⟨ns, hns, hsubm⟩ := Lexicon.modifiers_sublist hsub hms
  have hvalid := validate_eq_missing hns (hc.tolerates.sublist hsubm) (hc.chain_sublist hsubm)
  cases hmissing : missing? ns with
  | none =>
    rw [hmissing] at hvalid
    exact .inl hvalid
  | some e =>
    obtain ⟨front, m, back, hsplit, q, hq, -, rfl⟩ := missing?_eq_some hmissing
    have hm : m ∈ ns := by simp [hsplit]
    have ht : m.token ∈ ts' := by
      rw [← Lexicon.map_token_of_modifiers hns]
      exact List.mem_map_of_mem hm
    rw [hmissing] at hvalid
    exact .inr ⟨m.token, ht, m.rule, q, Lexicon.rule?_of_modifiers hns hm, hq, hvalid⟩

/-- Without what stood between them, an extension's ninth and its alteration still go together. The
lowered ninth of the built-in lexicon does not go without an extension. -/
theorem validate_sublist_ninths :
    ninths.validate [⟨1, "alt"⟩, ⟨2, "#9"⟩, ⟨0, "9"⟩] = .ok [⟨1, "alt"⟩, ⟨2, "#9"⟩, ⟨0, "9"⟩] ∧
    List.Sublist [⟨2, "#9"⟩, ⟨0, "9"⟩] [⟨1, "alt"⟩, ⟨2, "#9"⟩, (⟨0, "9"⟩ : Token)] ∧
    ninths.validate [⟨2, "#9"⟩, ⟨0, "9"⟩] = .ok [⟨2, "#9"⟩, ⟨0, "9"⟩] ∧
    Lexicon.standard.validate [⟨22, "b9"⟩, ⟨9, "7"⟩] = .ok [⟨22, "b9"⟩, ⟨9, "7"⟩] ∧
    List.Sublist [⟨22, "b9"⟩] [⟨22, "b9"⟩, (⟨9, "7"⟩ : Token)] ∧
    Lexicon.standard.validate [⟨22, "b9"⟩] =
      .error (.missingRequirement "b9" (.category .extension)) := by
  have hok : ninths.validate [⟨1, "alt"⟩, ⟨2, "#9"⟩, ⟨0, "9"⟩] =
      .ok [⟨1, "alt"⟩, ⟨2, "#9"⟩, ⟨0, "9"⟩] := by cbv
  have hsub : List.Sublist [⟨2, "#9"⟩, ⟨0, "9"⟩] [⟨1, "alt"⟩, ⟨2, "#9"⟩, (⟨0, "9"⟩ : Token)] := by
    decide
  have hlowered : Lexicon.standard.validate [⟨22, "b9"⟩, ⟨9, "7"⟩] =
      .ok [⟨22, "b9"⟩, ⟨9, "7"⟩] := by cbv
  have halone : List.Sublist [⟨22, "b9"⟩] [⟨22, "b9"⟩, (⟨9, "7"⟩ : Token)] := by decide
  refine ⟨hok, hsub, ?_, hlowered, halone, ?_⟩
  · refine (validate_sublist ninths _ _ _ hok hsub).resolve_right ?_
    rintro ⟨t, -, u, q, hu, hq, -⟩
    have hnone : ∀ u ∈ ninths.rules, u.requires = [] := by decide
    rw [hnone u (List.mem_of_getElem? hu)] at hq
    cases hq
  · rcases validate_sublist _ _ _ _ hlowered halone with hvalid | ⟨t, ht, u, q, hu, hq, hmissing⟩
    · -- nothing stands beside the ninth, an extension least of all
      obtain ⟨ms, hms, hc, -⟩ := validate_eq_ok.1 hvalid
      cases hms
      obtain ⟨o, ho, -⟩ := hc.provided [] _ [] rfl (.category .extension) (by decide)
      cases ho
    · cases List.mem_singleton.1 ht
      cases hu
      cases List.mem_singleton.1 hq
      exact hmissing

end Combination

namespace Lexicon

variable {lx : Lexicon} {ts us : List Token} {t : Token} {u : Rule} {q : Requirement}

/-- What an accepted modifier needs is provided by a modifier of another rule, not of its own. -/
theorem exists_provider (hedits : ∀ u ∈ lx.rules, u.edits ≠ []) (h : lx.validate ts = .ok us)
    (ht : t ∈ ts) (hu : lx.rule? t.rule = some u) (hq : q ∈ u.requires) :
    ∃ o ∈ ts, o.rule ≠ t.rule ∧ ∃ w, lx.rule? o.rule = some w ∧ q.isMetBy w o.symbol = true := by
  obtain ⟨ms, hms, hc, -⟩ := Combination.validate_eq_ok.1 h
  have hnodup := nodup_rules_of_validate hedits h
  rw [← map_token_of_modifiers hms] at ht hnodup ⊢
  obtain ⟨m, hm, rfl⟩ := List.mem_map.1 ht
  obtain rfl : m.rule = u := Option.some.inj ((rule?_of_modifiers hms hm).symm.trans hu)
  obtain ⟨front, back, rfl⟩ := List.append_of_mem hm
  obtain ⟨o, ho, hmet⟩ := hc.provided front m back rfl q hq
  have homs : o ∈ front ++ m :: back := ((List.sublist_cons_self m back).append_left front).subset ho
  -- no rule occurs twice, so those beside `m` have other rules
  have hmiddle := ((List.perm_middle.map Modifier.token).map Token.rule).nodup_iff.1 hnodup
  have hfresh := (List.nodup_cons.1 hmiddle).1
  refine ⟨o.token, List.mem_map_of_mem homs, fun hsame => hfresh ?_, o.rule,
    rule?_of_modifiers hms homs, hmet⟩
  rw [← hsame]
  exact List.mem_map_of_mem (List.mem_map_of_mem ho)

/-- A table is no lexicon if one of its rules needs what no rule at another place provides. -/
theorem exists_refusal_of_unmeetable {rules : List Rule} {i : Nat} (hr : rules[i]? = some u)
    (hq : q ∈ u.requires)
    (hno : ∀ j o, j ≠ i → rules[j]? = some o → ∀ s ∈ o.symbols, q.isMetBy o s = false) :
    ∃ e, ofRules rules = .error e := by
  cases hof : ofRules rules with
  | error e => exact ⟨e, rfl⟩
  | ok lx =>
    have hw := (ofRules_iff_wellFormed.1 hof).1
    obtain ⟨front, back, rfl, rfl⟩ := Combination.getElem?_eq_some_iff_split.1 hr
    obtain ⟨o, ho, s, hs, hmet⟩ := (hw.provided front u back rfl q hq).met
    obtain ⟨j, hj, hoj⟩ := Combination.mem_others_iff.1 ho
    rw [hno j o hj hoj s hs] at hmet
    cases hmet

/-- A table of which one rule needs what no rule at another place provides is no lexicon, and it
accepts no list in which that rule occurs, be it several times. -/
theorem unmeetable_rejected (rules : List Rule) (hedits : ∀ r ∈ rules, r.edits ≠ []) (i : Nat)
    (r : Rule) (hr : rules[i]? = some r) (q : Requirement) (hq : q ∈ r.requires)
    (hno : ∀ j o, j ≠ i → rules[j]? = some o → ∀ s ∈ o.symbols, q.isMetBy o s = false) :
    (∃ e, ofRules rules = .error e) ∧
    ∀ ts : List Token, (∀ t ∈ ts, ∀ o, rules[t.rule]? = some o → t.symbol ∈ o.symbols) →
      (∃ t ∈ ts, t.rule = i) → ∃ e, (Lexicon.mk rules).validate ts = .error e := by
  refine ⟨exists_refusal_of_unmeetable hr hq hno, ?_⟩
  rintro ts hown ⟨t, ht, rfl⟩
  cases hvalid : (Lexicon.mk rules).validate ts with
  | error e => exact ⟨e, rfl⟩
  | ok us =>
    obtain ⟨o, ho, hne, w, hw, hmet⟩ := exists_provider hedits hvalid ht hr hq
    rw [hno o.rule w hne hw o.symbol (hown o ho w hw)] at hmet
    cases hmet

/-- A lowered ninth that needs a lowered ninth: two of them would provide each other. -/
def selfish : List Rule := [
  Rule.basic .extension ["9"] [.add .ninth 14],
  { Rule.basic .alteration ["b9"] [.modify .ninth (-1)] with requires := [.symbol "b9"] }]

theorem unmeetable_rejected_selfish : (∀ r ∈ selfish, r.edits ≠ []) ∧
    (∀ j o, j ≠ 1 → selfish[j]? = some o →
      ∀ s ∈ o.symbols, Requirement.isMetBy (.symbol "b9") o s = false) ∧
    (∃ e, ofRules selfish = .error e) ∧
    ∃ e, (Lexicon.mk selfish).validate [⟨1, "b9"⟩, ⟨0, "9"⟩, ⟨1, "b9"⟩] = .error e := by
  have hedits : ∀ r ∈ selfish, r.edits ≠ [] := by decide
  have hno : ∀ j o, j ≠ 1 → selfish[j]? = some o →
      ∀ s ∈ o.symbols, Requirement.isMetBy (.symbol "b9") o s = false := by
    intro j o hj ho
    match j with
    | 0 =>
      cases ho
      decide
    | j + 2 => cases ho
  have hown : ∀ t ∈ [⟨1, "b9"⟩, ⟨0, "9"⟩, (⟨1, "b9"⟩ : Token)], ∀ o, selfish[t.rule]? = some o →
      t.symbol ∈ o.symbols := by
    intro t ht o ho
    rcases List.mem_cons.1 ht with rfl | ht
    · cases ho
      decide
    · rcases List.mem_pair.1 ht with rfl | rfl <;> cases ho <;> decide
  have h := unmeetable_rejected selfish hedits 1 _ rfl (.symbol "b9") (by decide) hno
  exact ⟨hedits, hno, h.1, h.2 _ hown ⟨⟨1, "b9"⟩, by simp, rfl⟩⟩

end Lexicon
end ChordSymbol
