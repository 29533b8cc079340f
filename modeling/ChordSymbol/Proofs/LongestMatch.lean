import ChordSymbol.Lexicon.Standard
import ChordSymbol.Proofs.Spelling

/-! Tokens by longest match. At each place the spelling taken comes before all others that fit there,
and a suffix is refused at the first place where none fits. -/
namespace ChordSymbol

/-- Longest match after longest match from `cs` on: what is taken, and the text that no spelling of
the table starts. -/
inductive Munch (rules : List Rule) : List Char → List Token → List Char → Prop
  | stop {cs : List Char} (stuck : ∀ (s : Spelling) rest, s.In rules → ¬s.Fits cs rest) :
      Munch rules cs [] cs
  | take {s : Spelling} {cs rest left : List Char} {ts : List Token}
      (longest : s.Longest rules cs rest) (further : Munch rules rest ts left) :
      Munch rules cs (s.token :: ts) left

namespace Token

variable {ps : List Pattern.Spelled} {cs rest : List Char} {t : Token}

theorem ne_nil_of_next? (h : next? ps cs = some (t, rest)) : cs ≠ [] := by
  rintro rfl
  exact Nat.not_lt_zero _ (next?_length_lt h)

theorem scan_of_next? (h : next? ps cs = some (t, rest)) :
    scan ps cs = (scan ps rest).map (t :: ·) := by
  rw [scan, if_neg (ne_nil_of_next? h)]
  split
  next hnone =>
    rw [h] at hnone
    cases hnone
  next u left hsome =>
    rw [h] at hsome
    cases hsome
    cases scan ps rest <;> rfl

theorem scan_of_stuck (hne : cs ≠ []) (h : next? ps cs = none) :
    scan ps cs = .error (.unrecognizedModifier (String.ofList cs)) := by
  rw [scan, if_neg hne]
  split
  next => rfl
  next hsome =>
    rw [h] at hsome
    cases hsome

end Token

namespace Lexicon

variable {rules : List Rule} {lx : Lexicon} {cs left : List Char} {ts : List Token}

/-- Taking longest matches always ends. -/
theorem exists_munch (h : ofRules rules = .ok lx) (cs : List Char) :
    ∃ ts left, Munch rules cs ts left := by
  induction hn : cs.length using Nat.strongRecOn generalizing cs with
  | ind n ih =>
    cases hnext : Token.next? lx.spelledPatterns cs with
    | none => exact ⟨[], cs, .stop ((next?_eq_none h).1 hnext)⟩
    | some found =>
      obtain ⟨t, rest⟩ := found
      obtain ⟨s, hs, -⟩ := (next?_eq_some h).1 hnext
      obtain ⟨ts, left, hm⟩ := ih rest.length (hn ▸ Token.next?_length_lt hnext) rest rfl
      exact ⟨s.token :: ts, left, .take hs hm⟩

/-- The loop follows the longest matches, and refuses what they leave. -/
theorem scan_of_munch (h : ofRules rules = .ok lx) (hm : Munch rules cs ts left) :
    Token.scan lx.spelledPatterns cs =
      if left = [] then .ok ts else .error (.unrecognizedModifier (String.ofList left)) := by
  induction hm with
  | @stop cs stuck =>
    by_cases hcs : cs = []
    · rw [if_pos hcs, hcs, Token.scan_nil]
    · rw [if_neg hcs, Token.scan_of_stuck hcs ((next?_eq_none h).2 stuck)]
  | @take s cs rest left ts longest _ ih =>
    rw [Token.scan_of_next? ((next?_eq_some h).2 ⟨s, longest, rfl⟩), ih]
    by_cases hleft : left = []
    · rw [if_pos hleft, if_pos hleft]
      rfl
    · rw [if_neg hleft, if_neg hleft]
      rfl

theorem munch_of_tokenize {suffix : String} (h : ofRules rules = .ok lx)
    (hts : lx.tokenize suffix = .ok ts) : Munch rules suffix.toList ts [] := by
  obtain ⟨us, left, hm⟩ := exists_munch h suffix.toList
  have hscan : lx.tokenize suffix = _ := scan_of_munch h hm
  by_cases hleft : left = []
  · rw [if_pos hleft] at hscan
    cases hscan.symm.trans hts
    exact hleft ▸ hm
  · rw [if_neg hleft] at hscan
    cases hscan.symm.trans hts

theorem munch_of_tokenize_error {suffix : String} {e : Refusal} (h : ofRules rules = .ok lx)
    (he : lx.tokenize suffix = .error e) : ∃ ts left, left ≠ [] ∧
      Munch rules suffix.toList ts left ∧ e = .unrecognizedModifier (String.ofList left) := by
  obtain ⟨ts, left, hm⟩ := exists_munch h suffix.toList
  have hscan : lx.tokenize suffix = _ := scan_of_munch h hm
  by_cases hleft : left = []
  · rw [if_pos hleft] at hscan
    cases hscan.symm.trans he
  · rw [if_neg hleft] at hscan
    cases hscan.symm.trans he
    exact ⟨ts, left, hleft, hm, rfl⟩

theorem tokenize_ofList (h : ofRules rules = .ok lx) (hm : Munch rules cs ts []) :
    lx.tokenize (String.ofList cs) = .ok ts := by
  rw [tokenize, String.toList_ofList, scan_of_munch h hm, if_pos rfl]

/-- A suffix has tokens just when longest matches use it up, and they are these matches. Else it is
refused with the text at the first place where no spelling fits. -/
theorem tokenize_iff_munch (h : ofRules rules = .ok lx) (suffix : String) :
    (∀ ts, lx.tokenize suffix = .ok ts ↔ Munch rules suffix.toList ts []) ∧
    ∀ e, lx.tokenize suffix = .error e ↔ ∃ ts left, left ≠ [] ∧ Munch rules suffix.toList ts left ∧
      e = .unrecognizedModifier (String.ofList left) := by
  obtain ⟨us, left, hm⟩ := exists_munch h suffix.toList
  have hscan : lx.tokenize suffix = _ := scan_of_munch h hm
  refine ⟨fun ts => ⟨fun hok => ?_, fun hts => ?_⟩, fun e => ⟨fun herr => ?_, ?_⟩⟩
  · rw [hscan] at hok
    by_cases hleft : left = []
    · rw [if_pos hleft] at hok
      cases hok
      rwa [hleft] at hm
    · rw [if_neg hleft] at hok
      cases hok
  · rw [tokenize, scan_of_munch h hts, if_pos rfl]
  · rw [hscan] at herr
    by_cases hleft : left = []
    · rw [if_pos hleft] at herr
      cases herr
    · rw [if_neg hleft] at herr
      cases herr
      exact ⟨us, left, hleft, hm, rfl⟩
  · rintro ⟨ts, left', hleft, hts, rfl⟩
    rw [tokenize, scan_of_munch h hts, if_neg hleft]

/-- The first two qualities and the first two extensions of the built-in lexicon. -/
def minorMajor : List Rule := standardQualities.take 2 ++ standardExtensions.take 2

/-- The longer spelling wins, and what stands before `aj` is not the spelling `m`. -/
theorem tokenize_iff_munch_minor : ofRules minorMajor = .ok ⟨minorMajor⟩ ∧
    tokenize ⟨minorMajor⟩ "minmaj7" = .ok [⟨1, "min"⟩, ⟨3, "maj7"⟩] ∧
    tokenize ⟨minorMajor⟩ "7mAj" = .error (.unrecognizedModifier "mAj") := by
  have h : ofRules minorMajor = .ok ⟨minorMajor⟩ :=
    ofRules_eq_ok.2 ⟨by decide +kernel, by decide +kernel, rfl⟩
  let min : Spelling := ⟨1, 1, minorMajor[1], "min"⟩
  let maj7 : Spelling := ⟨3, 0, minorMajor[3], "maj7"⟩
  let seven : Spelling := ⟨2, 0, minorMajor[2], "7"⟩
  have hmin : min.Longest minorMajor "minmaj7".toList "maj7".toList :=
    longest_iff.2 (by decide)
  have hmaj7 : maj7.Longest minorMajor "maj7".toList [] := longest_iff.2 (by decide)
  have hseven : seven.Longest minorMajor "7mAj".toList "mAj".toList := longest_iff.2 (by decide)
  have hend : Munch minorMajor [] [] [] := .stop (stuck_iff.2 (by decide))
  have hmAj : Munch minorMajor "mAj".toList [] "mAj".toList := .stop (stuck_iff.2 (by decide))
  have hok := ((tokenize_iff_munch h "minmaj7").1 _).2 (.take hmin (.take hmaj7 hend))
  have herr := ((tokenize_iff_munch h "7mAj").2 _).2
    ⟨_, "mAj".toList, by decide, .take hseven hmAj, rfl⟩
  exact ⟨h, hok, herr⟩

end Lexicon
end ChordSymbol
