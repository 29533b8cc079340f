import ChordSymbol.Proofs.Evaluation
import ChordSymbol.Proofs.Rearrangement

/-! Larger lexicons. A symbol in which no spelling of the further rules occurs is read by the larger lexicon
as it is by the smaller, although the rules have moved to other places and the spellings are sorted anew. -/
namespace ChordSymbol

/-- Some spelling of `r` stands somewhere in `cs`, in whatever letter case. -/
def Rule.OccursIn (r : Rule) (cs : List Char) : Prop :=
  ∃ s ∈ r.symbols, s.toList.map Char.toLower <:+: cs.map Char.toLower

instance (r : Rule) (cs : List Char) : Decidable (r.OccursIn cs) :=
  inferInstanceAs (Decidable (∃ s ∈ r.symbols, _))

namespace Spelling

variable {rules rules' : List Rule} {s : Spelling} {cs tail rest : List Char}

/-- What fits somewhere in a text occurs in it. -/
theorem occursIn_of_fits (hs : s.In rules) (hfits : s.Fits tail rest) (htail : tail <:+ cs) :
    s.rule.OccursIn cs := by
  obtain ⟨piece, rfl, hw⟩ := hfits.letters
  refine ⟨s.symbol, List.mem_of_getElem? hs.symbol, ?_⟩
  have hpiece : piece.map Char.toLower = s.symbol.toList.map Char.toLower := map_toLower_of_written hw
  rw [← hpiece]
  exact ((List.prefix_append piece rest).isInfix.trans htail.isInfix).map Char.toLower

theorem carriedOver_of_subset (h : ∀ r ∈ rules, r.OccursIn cs → r ∈ rules') (htail : tail <:+ cs) :
    CarriedOver rules rules' tail := by
  intro s rest hs hfits
  have hrule := h s.rule (List.mem_of_getElem? hs.rule) (occursIn_of_fits hs hfits htail)
  obtain ⟨i, hi⟩ := List.mem_iff_getElem?.1 hrule
  exact ⟨⟨i, s.place, s.rule, s.symbol⟩, ⟨hi, hs.symbol⟩, rfl, .refl _⟩

end Spelling

namespace Lexicon

variable {rules : List Rule}

/-- Further rules, none of them a default, may be listed anywhere in a lexicon: a symbol whose suffix has
none of their spellings in it, in whatever letter case, makes the same chord as before or is refused for
the same reason. -/
theorem parse_conservative (rules rules' : List Rule) (lx lx' : Lexicon) (hsub : rules.Sublist rules')
    (hok : ofRules rules = .ok lx) (hok' : ofRules rules' = .ok lx')
    (hdefault : ∀ r ∈ rules', r ∉ rules → r.isDefault = false) (separator symbol : String)
    (habsent : ∀ root suffix, Note.cut symbol = .ok (root, suffix) →
      ∀ r ∈ rules', r ∉ rules → ¬r.OccursIn suffix.toList) :
    (Interpreter.mk lx separator).parse symbol = (Interpreter.mk lx' separator).parse symbol := by
  obtain ⟨-, rfl⟩ := ofRules_iff_wellFormed.1 hok
  obtain ⟨hw', rfl⟩ := ofRules_iff_wellFormed.1 hok'
  have himplied : implied ⟨rules⟩ = implied ⟨rules'⟩ := by
    refine implied_carried hw' (fun r hr _ => ⟨r, hsub.subset hr, .refl r⟩) fun u hu hud => ?_
    have hmem : u ∈ rules := by
      by_contra hnot
      rw [hdefault u hu hnot] at hud
      cases hud
    exact ⟨u, hmem, .refl u⟩
  refine Interpreter.parse_eq_of_tokenize_alike (i := ⟨⟨rules⟩, separator⟩) (j := ⟨⟨rules'⟩, separator⟩) rfl
    himplied fun root suffix hcut => ?_
  refine tokenize_carried hok hok' (fun tail htail => ?_) fun tail htail => ?_
  · exact Spelling.carriedOver_of_subset (fun r hr _ => hsub.subset hr) htail
  · refine Spelling.carriedOver_of_subset (fun r hr hoccurs => ?_) htail
    by_contra hnot
    exact habsent root suffix hcut r hr hnot hoccurs

/-- Two sevenths are refused with the minor chord in the lexicon and without it, which moves them both. -/
theorem parse_conservative_sevenths :
    (minorMajor.eraseIdx 1).Sublist minorMajor ∧
    ofRules (minorMajor.eraseIdx 1) = .ok ⟨minorMajor.eraseIdx 1⟩ ∧
    ofRules minorMajor = .ok ⟨minorMajor⟩ ∧
    (∀ r ∈ minorMajor, r ∉ minorMajor.eraseIdx 1 → r.isDefault = false) ∧
    (∀ root suffix, Note.cut "C7Δ" = .ok (root, suffix) →
      ∀ r ∈ minorMajor, r ∉ minorMajor.eraseIdx 1 → ¬r.OccursIn suffix.toList) ∧
    (Interpreter.ofLexicon ⟨minorMajor.eraseIdx 1⟩).parse "C7Δ" =
      .error (.conflictingRole .seventh "Δ" "7") ∧
    (Interpreter.ofLexicon ⟨minorMajor⟩).parse "C7Δ" =
      .error (.conflictingRole .seventh "Δ" "7") := by
  have hsub : (minorMajor.eraseIdx 1).Sublist minorMajor := List.eraseIdx_sublist ..
  have hok : ofRules (minorMajor.eraseIdx 1) = .ok ⟨minorMajor.eraseIdx 1⟩ :=
    ofRules_eq_ok.2 ⟨by decide +kernel, by decide +kernel, rfl⟩
  have hok' : ofRules minorMajor = .ok ⟨minorMajor⟩ :=
    ofRules_eq_ok.2 ⟨by decide +kernel, by decide +kernel, rfl⟩
  have hdefault : ∀ r ∈ minorMajor, r ∉ minorMajor.eraseIdx 1 → r.isDefault = false := by decide
  have hcut : Note.cut "C7Δ" = .ok ("C", "7Δ") := by decide
  have habsent : ∀ root suffix, Note.cut "C7Δ" = .ok (root, suffix) →
      ∀ r ∈ minorMajor, r ∉ minorMajor.eraseIdx 1 → ¬r.OccursIn suffix.toList := by
    intro root suffix h
    cases hcut.symm.trans h
    decide
  have hts : tokenize ⟨minorMajor.eraseIdx 1⟩ "7Δ" = .ok [⟨1, "7"⟩, ⟨2, "Δ"⟩] := by
    rw [tokenize_eq_scanWithin]
    decide +kernel
  have hvalid : validate ⟨minorMajor.eraseIdx 1⟩ [⟨1, "7"⟩, ⟨2, "Δ"⟩] =
      .error (.conflictingRole .seventh "Δ" "7") := by cbv
  have hparse : (Interpreter.ofLexicon ⟨minorMajor.eraseIdx 1⟩).parse "C7Δ" =
      .error (.conflictingRole .seventh "Δ" "7") := by
    refine Interpreter.parse_of_refusal ?_
    rw [Interpreter.resolve_eq, hcut]
    simp only [Interpreter.ofLexicon, hts, hvalid]
    rfl
  have hsame := parse_conservative _ _ _ _ hsub hok hok' hdefault Display.defaultSeparator "C7Δ" habsent
  exact ⟨hsub, hok, hok', hdefault, habsent, hparse, hsame.symm.trans hparse⟩

end Lexicon
end ChordSymbol
