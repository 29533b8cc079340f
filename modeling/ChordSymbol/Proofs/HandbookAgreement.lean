import ChordSymbol.Comparison.Basic
import ChordSymbol.Proofs.Evaluation
import ChordSymbol.Proofs.SlashCut

/-! The interpreter beside the handbook. They cut a symbol by different means, and yet what the handbook
lists the interpreter reads, to the same semitones but for sixths, which it keeps above the octave. -/
namespace ChordSymbol

namespace Handbook

/-- What may follow the letter of a root. -/
def Accidental (cs : List Char) : Prop := cs = [] ∨ cs = ['#'] ∨ cs = ['b']

/-- `suffix` stands in `symbol` between a letter, with `#` or `b` at most, and a slash or the end. -/
def Suffixed (symbol suffix : String) : Prop := ∃ letter accidental tail,
  symbol.toList = letter :: (accidental ++ suffix.toList ++ tail) ∧ Note.IsLetter letter ∧
    Accidental accidental ∧ (tail = [] ∨ ['/'] <+: tail)

variable {cs suffix : List Char}

/-- Where no accidental starts the suffix, it is clear which characters are the root. -/
theorem suffix?_eq_some (hplain : Note.Plain suffix) :
    suffix? cs = some suffix ↔ ∃ letter accidental, cs = letter :: (accidental ++ suffix) ∧
      Note.IsLetter letter ∧ Accidental accidental := by
  constructor
  · intro h
    cases cs with
    | nil => cases h
    | cons c cs =>
      simp only [suffix?] at h
      split at h
      · next hc =>
        split at h
        · cases h
          exact ⟨c, ['#'], rfl, hc, .inr (.inl rfl)⟩
        · cases h
          exact ⟨c, ['b'], rfl, hc, .inr (.inr rfl)⟩
        · cases h
          exact ⟨c, [], rfl, hc, .inl rfl⟩
      · cases h
  · rintro ⟨c, accidental, rfl, hc, ha⟩
    -- the two ranges of letters are one
    have hrange : 'A' ≤ c ∧ c ≤ 'G' := hc
    rcases ha with rfl | rfl | rfl
    · simp only [suffix?, if_pos hrange, List.nil_append]
      split
      · simp [Note.accidentals] at hplain
      · simp [Note.accidentals] at hplain
      · rfl
    · simp [suffix?, hrange]
    · simp [suffix?, hrange]

theorem suffixed_iff {symbol suffix : String} (hslash : '/' ∉ suffix.toList)
    (hplain : Note.Plain suffix.toList) : Suffixed symbol suffix ↔
      suffix? (symbol.toList.takeWhile (· ≠ '/')) = some suffix.toList := by
  rw [suffix?_eq_some hplain]
  constructor
  · rintro ⟨c, accidental, tail, hs, hc, ha, htail⟩
    have hfront : '/' ∉ c :: (accidental ++ suffix.toList) := by
      have hc' : c ≠ '/' := by
        rintro rfl
        exact absurd hc (by decide)
      rcases ha with rfl | rfl | rfl <;> simp [hslash, hc'.symm]
    refine ⟨c, accidental, ?_, hc, ha⟩
    rcases htail with rfl | ⟨after, rfl⟩
    · rw [hs, List.append_nil]
      exact Text.takeWhile_of_cutChars?_eq_none (Text.cutChars?_eq_none.2 hfront)
    · have hcut : symbol.toList = c :: (accidental ++ suffix.toList) ++ '/' :: after := by simp [hs]
      exact Text.takeWhile_of_cutChars? (Text.cutChars?_eq_some.2 ⟨hcut, hfront⟩)
  · rintro ⟨c, accidental, hhead, hc, ha⟩
    obtain ⟨tail, hs, htail⟩ := Text.exists_tail '/' symbol.toList
    refine ⟨c, accidental, tail, ?_, hc, ha, htail⟩
    rw [hs, hhead, List.cons_append]

/-- After a suffix that no accidental starts, root and suffix are cut alike. -/
theorem cut_of_suffix? (h : suffix? cs = some suffix) (hplain : Note.Plain suffix) :
    ∃ root, Note.cutChars? cs = some (root, suffix) := by
  obtain ⟨c, accidental, rfl, hc, ha⟩ := (suffix?_eq_some hplain).1 h
  refine ⟨c :: accidental, Note.cutChars?_eq_some.2 ⟨rfl, ?_⟩⟩
  rcases ha with rfl | rfl | rfl
  · exact .inl ⟨c, rfl, hc, hplain⟩
  · exact .inr ⟨c, '#', rfl, hc, by decide⟩
  · exact .inr ⟨c, 'b', rfl, hc, by decide⟩

/-- A sixth, major or minor. -/
def Sixth (symbol : String) : Prop := Suffixed symbol "6" ∨ Suffixed symbol "m6"

theorem sixth_iff {symbol x : String}
    (h : suffix? (symbol.toList.takeWhile (· ≠ '/')) = some x.toList) :
    Sixth symbol ↔ x = "6" ∨ x = "m6" := by
  have hiff (s : String) (hslash : '/' ∉ s.toList) (hplain : Note.Plain s.toList) :
      Suffixed symbol s ↔ x = s := by
    rw [suffixed_iff hslash hplain, h, Option.some_inj, String.toList_inj]
  exact or_congr (hiff "6" (by decide) (by decide)) (hiff "m6" (by decide) (by decide))

/-- What the interpreter sounds where the handbook lists `xs`. -/
def sounded (suffix : String) (xs : List Int) : List Int :=
  if suffix = "6" ∨ suffix = "m6" then xs.dropLast ++ [21] else xs

/-- The whole handbook, suffix by suffix. -/
theorem read_listed : ∀ e ∈ entries, ∀ x ∈ e.1,
    (Lexicon.standard.read x).map (·.semitones) = .ok (sounded x e.2) := by
  simp only [Lexicon.read, Lexicon.tokenize_eq_scanWithin, Lexicon.validate, Combination.finish,
    Lexicon.derive, Modifier.edits, Modifier.inOrder_eq_insertionSort]
  decide +kernel

theorem plain_listed : ∀ e ∈ entries, ∀ x ∈ e.1, Note.Plain x.toList := by decide

theorem sixth_listed : ∀ e ∈ entries, ∀ x ∈ e.1, x = "6" ∨ x = "m6" → e.2 = e.2.dropLast ++ [9] := by
  decide

theorem sounded_eq_iff {e : Entry} {x : String} (he : e ∈ entries) (hx : x ∈ e.1) :
    sounded x e.2 = e.2 ↔ ¬(x = "6" ∨ x = "m6") := by
  by_cases hs : x = "6" ∨ x = "m6"
  · have hraised : sounded x e.2 = e.2.dropLast ++ [21] := if_pos hs
    have hne : sounded x e.2 ≠ e.2 := by
      rw [hraised, sixth_listed e he x hx hs]
      simp
    exact iff_of_false hne (not_not_intro hs)
  · exact iff_of_true (if_neg hs) hs

theorem exists_listed {symbol : String} {listed : List Int} (h : semitones? symbol = some listed) :
    ∃ e ∈ entries, ∃ suffix ∈ e.1,
      suffix? (symbol.toList.takeWhile (· ≠ '/')) = some suffix.toList ∧ e.2 = listed := by
  obtain ⟨cs, hcs, hlookup⟩ := Option.bind_eq_some_iff.1 h
  obtain ⟨e, hfind, rfl⟩ := Option.map_eq_some_iff.1 hlookup
  refine ⟨e, List.mem_of_find?_eq_some hfind, String.ofList cs, ?_, ?_, rfl⟩
  · simpa using List.find?_some hfind
  · rw [hcs, String.toList_ofList]

theorem parse_listed {e : Entry} {x : String} (separator : String) (he : e ∈ entries) (hx : x ∈ e.1)
    (h : suffix? cs = some x.toList) : ∃ c,
      (⟨.standard, separator⟩ : Interpreter).parse (String.ofList cs) = .ok c ∧
        c.display.semitones = sounded x e.2 := by
  obtain ⟨root, hroot⟩ := cut_of_suffix? h (plain_listed e he x hx)
  have hcut : Note.cut (String.ofList cs) = .ok (String.ofList root, x) := by
    simp [Note.cut, hroot]
  have hvoicing : ((⟨.standard, separator⟩ : Interpreter).parse (String.ofList cs)).map (·.voicing) =
      Lexicon.standard.read x := by
    rw [Interpreter.voicing_of_parse, hcut]
    rfl
  have hread := read_listed e he x hx
  rw [← hvoicing] at hread
  cases hc : (⟨.standard, separator⟩ : Interpreter).parse (String.ofList cs) with
  | error r =>
    rw [hc] at hread
    cases hread
  | ok c =>
    rw [hc] at hread
    exact ⟨c, rfl, (Interpreter.semitones_of_parse hc).trans (Except.ok.inj hread)⟩

end Handbook

namespace Comparison

namespace Outcome

variable {xs ys : List Int}

@[simp] theorem ofAnswers_eq_same : ofAnswers (some xs) (some ys) = same ↔ xs = ys := by
  by_cases h : xs = ys <;> simp [ofAnswers, h]

@[simp] theorem ofAnswers_eq_different : ofAnswers (some xs) (some ys) = different ↔ xs ≠ ys := by
  by_cases h : xs = ys <;> simp [ofAnswers, h]

@[simp] theorem ofAnswers_ne_handbookOnly : ofAnswers (some xs) (some ys) ≠ handbookOnly := by
  by_cases h : xs = ys <;> simp [ofAnswers, h]

end Outcome

/-- What the handbook lists is refused only for its bass. Else it is read, and the two agree unless it
is a sixth, where they differ in the last tone. -/
theorem row_standard_of_listed (separator symbol : String) (listed : List Int)
    (h : Handbook.semitones? symbol = some listed) :
    let compared := row ⟨.standard, separator⟩ symbol
    (compared.outcome = .handbookOnly ↔ SlashChord.BadBass symbol) ∧
    (¬SlashChord.BadBass symbol →
      (∃ c, (⟨.standard, separator⟩ : Interpreter).parseSlash symbol = .ok c ∧
        compared.semitones = some c.chord.display.semitones) ∧
      (compared.outcome = .different ↔ Handbook.Sixth symbol) ∧
      (compared.outcome = .same ↔ ¬Handbook.Sixth symbol) ∧
      (Handbook.Sixth symbol →
        ∃ front, compared.semitones = some (front ++ [21]) ∧ listed = front ++ [9])) := by
  intro compared
  obtain ⟨e, he, x, hx, hsuffix, rfl⟩ := Handbook.exists_listed h
  have hsixth := Handbook.sixth_iff hsuffix
  rcases SlashChord.cut_cases symbol with ⟨hbad, bass, hcut⟩ | ⟨hgood, bass, hcut⟩
  · have houtcome : compared.outcome = .handbookOnly := by
      simp only [compared, row, answer_of_cut_error hcut, h, Outcome.ofAnswers]
    exact ⟨iff_of_true houtcome hbad, fun hgood => absurd hbad hgood⟩
  · obtain ⟨c, hc, hsounded⟩ := Handbook.parse_listed separator he hx hsuffix
    have hslash := Interpreter.parseSlash_of_cut hcut hc
    have hanswer : answer ⟨.standard, separator⟩ symbol = .ok (c.display.semitones, bass) := by
      rw [answer_of_cut hcut, hc]
      rfl
    have hsemitones : compared.semitones = some (Handbook.sounded x e.2) := by
      simp only [compared, row, hanswer, hsounded]
    have houtcome : compared.outcome = .ofAnswers (some (Handbook.sounded x e.2)) (some e.2) := by
      simp only [compared, row, hanswer, hsounded, h]
    have hsame : Handbook.sounded x e.2 = e.2 ↔ ¬Handbook.Sixth symbol :=
      (Handbook.sounded_eq_iff he hx).trans (not_congr hsixth.symm)
    refine ⟨by simp [houtcome, hgood], fun _ => ⟨⟨_, hslash, by rw [hsemitones, hsounded]⟩, ?_, ?_, ?_⟩⟩
    · rw [houtcome, Outcome.ofAnswers_eq_different, ne_eq, hsame, not_not]
    · rw [houtcome, Outcome.ofAnswers_eq_same, hsame]
    · intro h6
      have hraised : Handbook.sounded x e.2 = e.2.dropLast ++ [21] := if_pos (hsixth.1 h6)
      have hlisted := Handbook.sixth_listed e he x hx (hsixth.1 h6)
      exact ⟨e.2.dropLast, by rw [hsemitones, hraised], hlisted⟩

/-- A minor sixth over a bass is read, and is not what the handbook lists. -/
theorem row_standard_of_listed_sixth : Handbook.semitones? "F#m6/B♭" = some [0, 3, 7, 9] ∧
    (row ⟨.standard, " "⟩ "F#m6/B♭").outcome = .different ∧
    (row ⟨.standard, " "⟩ "F#m6/B♭").semitones = some [0, 3, 7, 21] := by
  have hlisted : Handbook.semitones? "F#m6/B♭" = some [0, 3, 7, 9] := by decide
  have hgood : ¬SlashChord.BadBass "F#m6/B♭" := by
    rintro ⟨head, bass, hs, hhead, hbass⟩
    have hcut : Text.cutChars? '/' "F#m6/B♭".toList = some ("F#m6".toList, "B♭".toList) := by decide
    cases hcut.symm.trans (Text.cutChars?_eq_some.2 ⟨hs, hhead⟩)
    exact hbass (.altered (by decide) (by decide))
  have hsixth : Handbook.Sixth "F#m6/B♭" :=
    .inr ⟨'F', ['#'], "/B♭".toList, by decide, by decide, .inr (.inl rfl), .inr (by decide)⟩
  obtain ⟨-, hread⟩ := row_standard_of_listed " " "F#m6/B♭" _ hlisted
  obtain ⟨-, hdifferent, -, hlast⟩ := hread hgood
  obtain ⟨front, hsemitones, hfront⟩ := hlast hsixth
  obtain rfl : [0, 3, 7] = front := List.append_cancel_right (show [0, 3, 7] ++ [9] = _ from hfront)
  exact ⟨hlisted, hdifferent.2 hsixth, hsemitones⟩

end Comparison
end ChordSymbol
