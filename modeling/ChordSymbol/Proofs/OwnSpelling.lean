import ChordSymbol.Proofs.Lossless

/-! Every spelling of a lexicon is read as itself: as one token, of the rule that a look-up finds. -/
namespace ChordSymbol

namespace Spelling

variable {rules : List Rule} {s t : Spelling} {piece : List Char} {r : Rule} {a : String} {i : Nat}

theorem exists_in (hr : rules[i]? = some r) (ha : a ∈ r.symbols) :
    ∃ s : Spelling, s.In rules ∧ s.rule = r ∧ s.token = ⟨i, a⟩ := by
  obtain ⟨place, hplace⟩ := List.mem_iff_getElem?.1 ha
  exact ⟨⟨i, place, r, a⟩, ⟨hr, hplace⟩, rfl, rfl⟩

/-- Where nothing follows, the guard on `m` has nothing to look at. -/
theorem fits_of_whole (h : s.Written piece) : s.Fits piece [] := by
  refine ⟨⟨piece, by simp, h⟩, fun _ haj => ?_⟩
  simp at haj

/-- What is written as `s` from end to end has no longer match, nor another as long. -/
theorem longest_of_written (hw : Lexicon.WellFormed rules) (hs : s.In rules) (h : s.Written piece) :
    s.Longest rules piece [] := by
  refine longest_of_length_le hw hs (fits_of_whole h) fun t left ht htfits => ?_
  obtain ⟨front, rfl, hfront⟩ := htfits.letters
  rw [← length_of_written h, ← length_of_written hfront, List.length_append]
  exact Nat.le_add_right _ _

/-- No two spellings of a lexicon are the same text. -/
theorem eq_of_symbol_eq (hw : Lexicon.WellFormed rules) (hs : s.In rules) (ht : t.In rules)
    (h : s.symbol = t.symbol) : s = t := by
  by_contra hne
  obtain ⟨hsymbol, -, -⟩ := apart_of_ne hw hs ht hne (congrArg Text.lowercase h)
  exact hsymbol h

end Spelling

namespace Lexicon

variable {rules : List Rule} {lx : Lexicon} {r : Rule} {t : Token} {a x : String} {i j : Nat}

theorem tokenize_of_writes (h : ofRules rules = .ok lx) (ht : t.Writes rules x.toList) :
    lx.tokenize x = .ok [t] := by
  obtain ⟨s, hs, rfl, hwritten⟩ := ht
  have hlongest := Spelling.longest_of_written (ofRules_iff_wellFormed.1 h).1 hs hwritten
  have hm := tokenize_ofList h (.take hlongest (Munch.nil h))
  rwa [String.ofList_toList] at hm

theorem writes_own (hr : rules[i]? = some r) (ha : a ∈ r.symbols) :
    (⟨i, a⟩ : Token).Writes rules a.toList := by
  obtain ⟨s, hs, -, htoken⟩ := Spelling.exists_in hr ha
  have hsymbol : s.symbol = a := congrArg Token.symbol htoken
  exact ⟨s, hs, htoken, by rw [Spelling.Written, Spelling.letters, hsymbol]⟩

/-- One rule has a spelling. -/
theorem index_eq_of_symbol {u : Rule} (hw : WellFormed rules) (hr : rules[i]? = some r)
    (ha : a ∈ r.symbols) (hu : rules[j]? = some u) (ha' : a ∈ u.symbols) : j = i := by
  obtain ⟨s, hs, -, hst⟩ := Spelling.exists_in hr ha
  obtain ⟨s', hs', -, hst'⟩ := Spelling.exists_in hu ha'
  have hsymbol : s'.symbol = s.symbol :=
    (congrArg Token.symbol hst').trans (congrArg Token.symbol hst).symm
  rw [Spelling.eq_of_symbol_eq hw hs' hs hsymbol, hst] at hst'
  exact (congrArg Token.rule hst').symm

/-- A look-up finds the one rule that has the spelling. -/
theorem find?_eq_some_iff (h : ofRules rules = .ok lx) :
    lx.find? a = some r ↔ ∃ i, lx.rule? i = some r ∧ a ∈ r.symbols := by
  obtain ⟨hw, rfl⟩ := ofRules_iff_wellFormed.1 h
  constructor
  · intro hfind
    obtain ⟨i, hi⟩ := List.mem_iff_getElem?.1 (List.mem_of_find?_eq_some hfind)
    exact ⟨i, hi, by simpa [Rule.hasSymbol] using List.find?_some hfind⟩
  · rintro ⟨i, hr, ha⟩
    cases hfind : find? ⟨rules⟩ a with
    | none =>
      have hnone := List.find?_eq_none.1 hfind r (List.mem_of_getElem? hr)
      simp [Rule.hasSymbol, ha] at hnone
    | some u =>
      obtain ⟨j, hu⟩ := List.mem_iff_getElem?.1 (List.mem_of_find?_eq_some hfind)
      have ha' : a ∈ u.symbols := by simpa [Rule.hasSymbol] using List.find?_some hfind
      cases index_eq_of_symbol hw hr ha hu ha'
      exact hu.symm.trans hr

/-- Each spelling of each rule is found as that rule's and no other's, and is read as one token of the
rule; so is what differs from it in letter case alone, where the rule does not insist on case. What a
look-up finds is what is read. -/
theorem find?_agrees_with_tokenize (h : ofRules rules = .ok lx) :
    (∀ i r a, lx.rule? i = some r → a ∈ r.symbols →
      lx.find? a = some r ∧ lx.tokenize a = .ok [⟨i, a⟩] ∧
      ∀ j u, lx.rule? j = some u → a ∈ u.symbols → j = i) ∧
    (∀ t x, t.Writes rules x.toList → lx.tokenize x = .ok [t]) ∧
    ∀ x r, lx.find? x = some r → ∃ i, lx.rule? i = some r ∧ lx.tokenize x = .ok [⟨i, x⟩] := by
  obtain ⟨hw, rfl⟩ := ofRules_iff_wellFormed.1 h
  refine ⟨fun i r a hr ha => ⟨?_, ?_, ?_⟩, fun t x => tokenize_of_writes h, fun x r hfind => ?_⟩
  · exact (find?_eq_some_iff h).2 ⟨i, hr, ha⟩
  · exact tokenize_of_writes h (writes_own hr ha)
  · exact fun j u hu ha' => index_eq_of_symbol hw hr ha hu ha'
  · obtain ⟨i, hr, hx⟩ := (find?_eq_some_iff h).1 hfind
    exact ⟨i, hr, tokenize_of_writes h (writes_own hr hx)⟩

/-- The spelling `m`, the spelling `major`, which starts with another `m`, and `sus4` in capitals. -/
theorem find?_agrees_with_tokenize_minor : ofRules standard.rules = .ok standard ∧
    standard.find? "m" = standard.rule? 1 ∧ standard.tokenize "m" = .ok [⟨1, "m"⟩] ∧
    standard.find? "major" = standard.rule? 0 ∧ standard.tokenize "major" = .ok [⟨0, "major"⟩] ∧
    standard.tokenize "SUS4" = .ok [⟨7, "sus4"⟩] := by
  have hagree := find?_agrees_with_tokenize ofRules_standard
  obtain ⟨hm, hmtokens, -⟩ := hagree.1 1 standard.rules[1] "m" rfl (by decide)
  obtain ⟨hmajor, hmajortokens, -⟩ := hagree.1 0 standard.rules[0] "major" rfl (by decide)
  let sus : Spelling := ⟨7, 0, standard.rules[7], "sus4"⟩
  have hsus : sus.token.Writes standard.rules "SUS4".toList :=
    ⟨sus, ⟨rfl, rfl⟩, rfl, by unfold Spelling.Written; decide⟩
  exact ⟨ofRules_standard, hm, hmtokens, hmajor, hmajortokens, hagree.2.1 _ _ hsus⟩

end Lexicon
end ChordSymbol
