import ChordSymbol.Proofs.Cutting

/-! Nothing of a suffix is lost. Its tokens are written one after the other, as far as the first place
where no spelling fits, and what comes before that place is read alike when nothing follows. -/
namespace ChordSymbol

namespace Spelling

variable {rules : List Rule} {lx : Lexicon} {s : Spelling} {cs rest left : List Char}

theorem Fits.append (h : s.Fits cs rest) (hm : s.symbol ≠ "m") (left : List Char) :
    s.Fits (cs ++ left) (rest ++ left) := by
  obtain ⟨front, rfl, hw⟩ := h.letters
  exact ⟨⟨front, List.append_assoc front rest left, hw⟩, fun h => absurd h hm⟩

theorem Fits.truncate (h : s.Fits (cs ++ left) (rest ++ left)) : s.Fits cs rest := by
  obtain ⟨front, hcs, hw⟩ := h.letters
  rw [← List.append_assoc] at hcs
  refine ⟨⟨front, List.append_cancel_right hcs, hw⟩, fun hm haj => h.unguarded hm ?_⟩
  rw [List.map_append]
  exact haj.trans (List.prefix_append _ _)

/-- Without the end of the text the guard on `m` may fall, but `m` is too short to be preferred. -/
theorem Longest.truncate (h : Lexicon.ofRules rules = .ok lx)
    (hl : s.Longest rules (cs ++ left) (rest ++ left)) : s.Longest rules cs rest := by
  have hw : Lexicon.WellFormed rules := (Lexicon.ofRules_iff_wellFormed.1 h).1
  refine longest_of_length_le hw hl.mem hl.fits.truncate fun t u ht htfits => ?_
  by_cases hm : t.symbol = "m"
  · exact Lexicon.length_le_of_m h hl.mem hm
  · exact hl.length_le ht (htfits.append hm left)

end Spelling

namespace Munch

variable {rules : List Rule} {lx : Lexicon} {cs left : List Char} {ts : List Token}

theorem stuck (h : Munch rules cs ts left) (s : Spelling) (rest : List Char) (hs : s.In rules) :
    ¬s.Fits left rest := by
  induction h with
  | stop stuck => exact stuck s rest hs
  | take _ _ ih => exact ih

theorem nil (h : Lexicon.ofRules rules = .ok lx) : Munch rules [] [] [] := by
  refine .stop fun s rest hs hfits => ?_
  obtain ⟨front, hnil, hw⟩ := hfits.letters
  have hfront : front = [] := (List.append_eq_nil_iff.1 hnil.symm).1
  rw [hfront, List.map_nil, eq_comm, List.map_eq_nil_iff] at hw
  exact Lexicon.letters_ne_nil h hs hw

theorem length_le (h : Lexicon.ofRules rules = .ok lx) (hm : Munch rules cs ts left) :
    ts.length + left.length ≤ cs.length := by
  obtain ⟨own, rfl, hwrites⟩ := hm.exists_pieces
  clear hm
  induction hwrites with
  | nil => simp
  | @cons t p ts own ht _ ih =>
    have hp : 0 < p.length := List.length_pos_iff.2 (Token.ne_nil_of_writes h ht)
    simp only [List.flatten_cons, List.length_append, List.length_cons] at ih ⊢
    omega

/-- What has been taken is taken again from the text cut short where nothing fits. -/
theorem truncate (h : Lexicon.ofRules rules = .ok lx) (hm : Munch rules cs ts left) :
    ∃ front, cs = front ++ left ∧ Munch rules front ts [] := by
  induction hm with
  | stop => exact ⟨[], rfl, nil h⟩
  | @take s cs rest left ts longest _ ih =>
    obtain ⟨front, rfl, hfront⟩ := ih
    obtain ⟨x, rfl, -⟩ := longest.fits.letters
    rw [← List.append_assoc] at longest ⊢
    exact ⟨x ++ front, rfl, .take (longest.truncate h) hfront⟩

end Munch

namespace Lexicon

variable {rules : List Rule} {lx : Lexicon}

/-- The tokens of a suffix are written one after the other and nothing is between them. A suffix that
is refused is its remainder after a text with tokens, and no spelling fits the remainder. -/
theorem tokenize_lossless (h : ofRules rules = .ok lx) (suffix : String) :
    (∀ ts, lx.tokenize suffix = .ok ts → ts.length ≤ suffix.length ∧
      ∃ pieces, pieces.flatten = suffix.toList ∧
        List.Forall₂ (fun t p => p ≠ [] ∧ t.Writes rules p) ts pieces) ∧
    ∀ e, lx.tokenize suffix = .error e → ∃ front left ts, e = .unrecognizedModifier left ∧
      suffix = front ++ left ∧ left ≠ "" ∧
      Munch rules suffix.toList ts left.toList ∧ ts.length ≤ suffix.length ∧
      lx.tokenize front = .ok ts ∧
      ∀ (s : Spelling) rest, s.In rules → ¬s.Fits left.toList rest := by
  have hlen {ts : List Token} {left : List Char} (hm : Munch rules suffix.toList ts left) :
      ts.length ≤ suffix.length := by
    rw [← String.length_toList]
    exact Nat.le_of_add_right_le (hm.length_le h)
  refine ⟨fun ts hts => ?_, fun e he => ?_⟩
  · have hm := munch_of_tokenize h hts
    obtain ⟨own, hown, hwrites⟩ := hm.exists_pieces
    rw [List.append_nil] at hown
    exact ⟨hlen hm, own, hown, hwrites.imp fun _ _ ht => ⟨Token.ne_nil_of_writes h ht, ht⟩⟩
  · obtain ⟨ts, left, hleft, hm, rfl⟩ := munch_of_tokenize_error h he
    obtain ⟨front, hcs, hfront⟩ := hm.truncate h
    have hsuffix : suffix = String.ofList front ++ String.ofList left := by
      rw [← String.ofList_append, ← hcs, String.ofList_toList]
    refine ⟨String.ofList front, String.ofList left, ts, rfl, hsuffix, ?_, ?_, hlen hm, ?_, ?_⟩
    · simpa using hleft
    · rwa [String.toList_ofList]
    · exact tokenize_ofList h hfront
    · rw [String.toList_ofList]
      exact hm.stuck

/-- A lexicon with the spelling `m` and one letter more of `maj`. -/
def almostMajor : List Rule := [
  { Rule.basic .quality ["M"] [.replace .third 4] with isDefault := true, caseSensitive := true },
  { Rule.basic .quality ["m"] [.replace .third 3] with caseSensitive := true },
  Rule.basic .addition ["ma"] [.add .ninth 14]]

/-- In front of `j` the spelling `m` is held back and `ma` is taken; without `j` nothing holds `m` back,
and `ma` is taken still. -/
theorem tokenize_lossless_maj : ofRules almostMajor = .ok ⟨almostMajor⟩ ∧
    tokenize ⟨almostMajor⟩ "maj" = .error (.unrecognizedModifier "j") ∧
    ∃ ts, tokenize ⟨almostMajor⟩ "ma" = .ok ts ∧ ts.length ≤ 2 ∧
      ∃ pieces, pieces.flatten = ['m', 'a'] ∧
        List.Forall₂ (fun t p => p ≠ [] ∧ t.Writes almostMajor p) ts pieces := by
  have h : ofRules almostMajor = .ok ⟨almostMajor⟩ :=
    ofRules_eq_ok.2 ⟨by decide +kernel, by decide +kernel, rfl⟩
  let ma : Spelling := ⟨2, 0, almostMajor[2], "ma"⟩
  have hma : ma.Longest almostMajor "maj".toList "j".toList := longest_iff.2 (by decide)
  have hj : Munch almostMajor "j".toList [] "j".toList := .stop (stuck_iff.2 (by decide))
  have herr : tokenize ⟨almostMajor⟩ "maj" = .error (.unrecognizedModifier "j") :=
    scan_of_munch h (.take hma hj)
  obtain ⟨front, left, ts, hleft, hmaj, -, -, -, hok, -⟩ := (tokenize_lossless h "maj").2 _ herr
  cases hleft
  obtain rfl : front = "ma" := by
    have happend : front.toList ++ ['j'] = ['m', 'a'] ++ ['j'] := by
      simpa using (congrArg String.toList hmaj).symm
    exact String.toList_injective (List.append_cancel_right happend)
  obtain ⟨hlen, hpieces⟩ := (tokenize_lossless h "ma").1 ts hok
  exact ⟨h, herr, ts, hok, hlen, hpieces⟩

end Lexicon
end ChordSymbol
