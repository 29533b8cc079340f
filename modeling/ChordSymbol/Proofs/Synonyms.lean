import ChordSymbol.Proofs.Evaluation
import ChordSymbol.Proofs.Matching

/-! Synonyms: spellings of one rule. Which of them is written has no part in whether modifiers go
together and in what they make; it is only seen again where a refusal or a step names a modifier. -/
namespace ChordSymbol

namespace Token

/-- Tokens of one rule of the table, each under a spelling that the rule has. -/
def Synonym (lx : Lexicon) (t t' : Token) : Prop := ∃ r, lx.rule? t.rule = some r ∧
  t'.rule = t.rule ∧ t.symbol ∈ r.symbols ∧ t'.symbol ∈ r.symbols

/-- At one place the first list has the spelling `s`, and the second has `s'`. -/
def SpelledAt (ts ts' : List Token) (s s' : String) : Prop :=
  ∃ (i : Nat) (t t' : Token), ts[i]? = some t ∧ ts'[i]? = some t' ∧ t.symbol = s ∧ t'.symbol = s'

variable {P : String → String → Prop} {lx : Lexicon} {t t' : Token} {ts ts' : List Token}

/-- A rule has both spellings, so either is found under the other's. -/
theorem Synonym.toMatches (h : t.Synonym lx t') (hP : P t.symbol t'.symbol) :
    t.Matches P lx lx t' := by
  obtain ⟨r, hr, hrule, hs, hs'⟩ := h
  have hown : ∀ {s s₀ : String}, s ∈ r.symbols → (r.hasSymbol s₀ || s = s₀) = r.hasSymbol s₀ := by
    intro s s₀ hs
    by_cases h : s = s₀
    · simp [Rule.hasSymbol, ← h, hs]
    · simp [h]
  refine ⟨⟨t, r⟩, ⟨t', r⟩, Lexicon.modifier_eq_ok.2 ⟨rfl, hr⟩,
    Lexicon.modifier_eq_ok.2 ⟨rfl, hrule ▸ hr⟩, hP, fun q => ?_, rfl, rfl, rfl, rfl, rfl⟩
  cases q with
  | category c => rfl
  | symbol s₀ => simp only [Requirement.isMetBy, hown hs, hown hs']
  | qualified c s₀ => simp only [Requirement.isMetBy, hown hs, hown hs']

theorem forall₂_matches_of_synonyms (h : List.Forall₂ (Synonym lx) ts ts') :
    List.Forall₂ (Matches (SpelledAt ts ts') lx lx) ts ts' := by
  have hlen := h.length_eq
  refine List.forall₂_iff_get.2 ⟨hlen, fun i hi hi' => ?_⟩
  refine ((List.forall₂_iff_get.1 h).2 i hi hi').toMatches ?_
  exact ⟨i, _, _, List.getElem?_eq_getElem hi, List.getElem?_eq_getElem hi', rfl, rfl⟩

end Token

namespace Lexicon

variable {lx : Lexicon} {suffix suffix' : String} {ts ts' : List Token}

/-- What stands in a suffix is named by a spelling of its own rule. -/
theorem own_symbol_of_tokenize (h : lx.tokenize suffix = .ok ts) :
    ∀ t ∈ ts, ∃ r, lx.rule? t.rule = some r ∧ t.symbol ∈ r.symbols := by
  obtain ⟨us, hus, hmem⟩ | ⟨left, hleft⟩ := Token.scan_cases lx.spelledPatterns suffix.toList
  · cases hus.symm.trans h
    intro t ht
    obtain ⟨p, hp, rfl⟩ := hmem t ht
    have hpattern := mem_patterns hp
    rw [patterns, ← Spelling.map_pattern_sorted] at hpattern
    obtain ⟨s, hs, hsp⟩ := List.mem_map.1 hpattern
    have hin := Spelling.mem_sorted.1 hs
    rw [← hsp]
    exact ⟨s.rule, hin.rule, List.mem_of_getElem? hin.symbol⟩
  · cases hleft.symm.trans h

theorem synonyms_of_tokenize (h : lx.tokenize suffix = .ok ts) (h' : lx.tokenize suffix' = .ok ts')
    (hrules : ts.map (·.rule) = ts'.map (·.rule)) : List.Forall₂ (Token.Synonym lx) ts ts' := by
  have hown := own_symbol_of_tokenize h
  have hown' := own_symbol_of_tokenize h'
  rw [← List.forall₂_eq_eq_eq, List.forall₂_map_left_iff, List.forall₂_map_right_iff] at hrules
  refine List.forall₂_iff_get.2 ⟨hrules.length_eq, fun i hi hi' => ?_⟩
  have hrule := (List.forall₂_iff_get.1 hrules).2 i hi hi'
  obtain ⟨r, hr, hs⟩ := hown _ (List.get_mem ts ⟨i, hi⟩)
  obtain ⟨r', hr', hs'⟩ := hown' _ (List.get_mem ts' ⟨i, hi'⟩)
  rw [hrule] at hr
  cases hr.symm.trans hr'
  exact ⟨r, hrule ▸ hr, hrule.symm, hs, hs'⟩

end Lexicon

namespace Interpreter

variable {P : String → String → Prop} {i : Interpreter} {symbol symbol' root suffix suffix' : String}
  {ts ts' : List Token}

theorem parse_of_tokenize (hcut : Note.cut symbol = .ok (root, suffix))
    (hts : i.lexicon.tokenize suffix = .ok ts) : i.parse symbol = do
      let us ← i.lexicon.validate ts
      let d ← i.lexicon.derive us
      let shown ← Display.ofVoicing i.separator d.voicing
      return chord symbol ⟨root, us⟩ d shown := by
  unfold parse
  rw [resolve_eq, hcut]
  simp only [hts]
  cases i.lexicon.validate ts <;> rfl

/-- Suffixes whose tokens match come to one chord on one root, or are refused alike. -/
theorem parse_matches (hcut : Note.cut symbol = .ok (root, suffix))
    (hcut' : Note.cut symbol' = .ok (root, suffix')) (hts : i.lexicon.tokenize suffix = .ok ts)
    (hts' : i.lexicon.tokenize suffix' = .ok ts')
    (h : List.Forall₂ (Token.Matches P i.lexicon i.lexicon) ts ts') :
    Likewise (Refusal.Matches P) (fun c c' => c.voicing = c'.voicing ∧ c.display = c'.display ∧
      c.pitchClasses = c'.pitchClasses) (i.parse symbol) (i.parse symbol') := by
  have hvalid := Combination.validate_matches h
  rw [parse_of_tokenize hcut hts, parse_of_tokenize hcut' hts']
  generalize i.lexicon.validate ts = x, i.lexicon.validate ts' = y at hvalid ⊢
  cases hvalid with
  | error he => exact .error he
  | ok hus =>
    obtain ⟨rfl, rfl⟩ := hus
    obtain ⟨d, d', hd, hd', hvoicing, -⟩ := Lexicon.derive_matches rfl h
    obtain ⟨shown, hshown⟩ := Display.exists_ofVoicing i.separator d.voicing
    have hshown' := hshown
    rw [hvoicing] at hshown'
    simp only [bind, Except.bind, pure, Except.pure, hd, hd', hshown, hshown']
    exact .ok ⟨hvoicing, rfl, by simp only [chord, hvoicing]⟩

end Interpreter

namespace Lexicon

/-- Synonyms may be put for each other. Of two lists of tokens with one rule at each place both are
accepted, or both are refused for one reason that names modifiers at the same places; both make one
voicing by the same steps. So suffixes of the same rules make chords that sound and look the same. -/
theorem synonyms_interchangeable (lx : Lexicon) :
    (∀ ts ts', List.Forall₂ (Token.Synonym lx) ts ts' →
      Likewise (Refusal.Matches (Token.SpelledAt ts ts')) (fun us us' => us = ts ∧ us' = ts')
        (lx.validate ts) (lx.validate ts') ∧
      ∃ d d', lx.derive ts = .ok d ∧ lx.derive ts' = .ok d' ∧ d.voicing = d'.voicing ∧
        List.Forall₂ (Step.Matches (Token.SpelledAt ts ts')) d.steps d'.steps) ∧
    ∀ separator symbol symbol' root suffix suffix' ts ts',
      Note.cut symbol = .ok (root, suffix) → Note.cut symbol' = .ok (root, suffix') →
      lx.tokenize suffix = .ok ts → lx.tokenize suffix' = .ok ts' →
      ts.map (·.rule) = ts'.map (·.rule) →
      Likewise (Refusal.Matches (Token.SpelledAt ts ts'))
        (fun c c' => c.voicing = c'.voicing ∧ c.display = c'.display ∧
          c.pitchClasses = c'.pitchClasses)
        ((Interpreter.mk lx separator).parse symbol)
        ((Interpreter.mk lx separator).parse symbol') := by
  constructor
  · intro ts ts' h
    have hmatch := Token.forall₂_matches_of_synonyms h
    exact ⟨Combination.validate_matches hmatch, derive_matches rfl hmatch⟩
  · intro separator symbol symbol' root suffix suffix' ts ts' hcut hcut' hts hts' hrules
    have hmatch := Token.forall₂_matches_of_synonyms (synonyms_of_tokenize hts hts' hrules)
    exact Interpreter.parse_matches (i := ⟨lx, separator⟩) hcut hcut' hts hts' hmatch

/-- Two sevenths that are refused in either spelling, and a half-diminished chord spelled in two ways. -/
theorem synonyms_interchangeable_sevenths :
    (List.Forall₂ (Token.Synonym standard) [⟨9, "7"⟩, ⟨10, "maj7"⟩] [⟨9, "7"⟩, ⟨10, "Δ"⟩] ∧
      standard.validate [⟨9, "7"⟩, ⟨10, "maj7"⟩] = .error (.conflictingRole .seventh "maj7" "7") ∧
      ∃ s s', standard.validate [⟨9, "7"⟩, ⟨10, "Δ"⟩] = .error (.conflictingRole .seventh s s') ∧
        Token.SpelledAt [⟨9, "7"⟩, ⟨10, "maj7"⟩] [⟨9, "7"⟩, ⟨10, "Δ"⟩] "maj7" s ∧
        Token.SpelledAt [⟨9, "7"⟩, ⟨10, "maj7"⟩] [⟨9, "7"⟩, ⟨10, "Δ"⟩] "7" s') ∧
    (standard.tokenize "min7b5" = .ok [⟨1, "min"⟩, ⟨9, "7"⟩, ⟨20, "b5"⟩] ∧
      standard.tokenize "-7♭5" = .ok [⟨1, "-"⟩, ⟨9, "7"⟩, ⟨20, "♭5"⟩] ∧
      ∃ c c', (Interpreter.ofLexicon standard).parse "Cmin7b5" = .ok c ∧
        (Interpreter.ofLexicon standard).parse "C-7♭5" = .ok c' ∧ c.voicing = c'.voicing ∧
        c.display = c'.display ∧ c.pitchClasses = c'.pitchClasses) := by
  obtain ⟨htokens, hsymbols⟩ := synonyms_interchangeable standard
  constructor
  · have hsynonyms : List.Forall₂ (Token.Synonym standard)
        [⟨9, "7"⟩, ⟨10, "maj7"⟩] [⟨9, "7"⟩, ⟨10, "Δ"⟩] :=
      .cons ⟨_, rfl, rfl, by decide, by decide⟩ (.cons ⟨_, rfl, rfl, by decide, by decide⟩ .nil)
    have herror : standard.validate [⟨9, "7"⟩, ⟨10, "maj7"⟩] =
        .error (.conflictingRole .seventh "maj7" "7") := by cbv
    have hvalid := (htokens _ _ hsynonyms).1
    rw [herror] at hvalid
    generalize standard.validate [⟨9, "7"⟩, ⟨10, "Δ"⟩] = x at hvalid
    cases hvalid with
    | error he =>
      cases he with
      | conflictingRole r hs ht => exact ⟨hsynonyms, herror, _, _, rfl, hs, ht⟩
  · have hts : standard.tokenize "min7b5" = .ok [⟨1, "min"⟩, ⟨9, "7"⟩, ⟨20, "b5"⟩] := by
      rw [tokenize_eq_scanWithin]
      decide +kernel
    have hts' : standard.tokenize "-7♭5" = .ok [⟨1, "-"⟩, ⟨9, "7"⟩, ⟨20, "♭5"⟩] := by
      rw [tokenize_eq_scanWithin]
      decide +kernel
    have hok : standard.validate [⟨1, "min"⟩, ⟨9, "7"⟩, ⟨20, "b5"⟩] =
        .ok [⟨1, "min"⟩, ⟨9, "7"⟩, ⟨20, "b5"⟩] := by cbv
    have hread : (Interpreter.ofLexicon standard).resolve "Cmin7b5" =
        .ok ⟨"C", [⟨1, "min"⟩, ⟨9, "7"⟩, ⟨20, "b5"⟩]⟩ :=
      Interpreter.resolve_of_stages (by decide) hts hok
    obtain ⟨d, shown, -, -, hc⟩ := Interpreter.exists_parse hread
    have hlike := hsymbols Display.defaultSeparator "Cmin7b5" "C-7♭5" "C" "min7b5" "-7♭5" _ _
      (by decide) (by decide) hts hts' rfl
    rw [show Interpreter.mk standard Display.defaultSeparator = Interpreter.ofLexicon standard from rfl,
      hc] at hlike
    generalize (Interpreter.ofLexicon standard).parse "C-7♭5" = x at hlike
    cases hlike with
    | ok h => exact ⟨hts, hts', _, _, hc, rfl, h⟩

end Lexicon
end ChordSymbol
