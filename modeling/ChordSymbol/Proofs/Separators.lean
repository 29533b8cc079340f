import ChordSymbol.Proofs.JoinedNumbers
import ChordSymbol.Proofs.Stages
import Mathlib

/-! What stands between semitones. It only shows in the joined text, and from that text the semitones are
read back whenever the separator has a character that no number is written with. -/
namespace ChordSymbol

theorem Decimal.toInt?_ofInt (x : Int) : (ofInt x).toInt? = some x := by
  rw [← Int.toInt?_repr x]
  cases x <;> rfl

theorem toInt?_split_joinSemitones {sep : String} {xs : List Int}
    (hsep : ∃ c ∈ sep.toList, ¬Decimal.IsNumeral c) (hne : xs ≠ []) :
    ((joinSemitones sep xs).split sep).toList.map (·.toInt?) = xs.map some := by
  have hcopy := congrArg (List.map String.toInt?) (split_joinSemitones hsep hne)
  simpa [Function.comp_def, Decimal.toInt?_ofInt] using hcopy

theorem Voicing.semitones_ne_nil {v : Voicing} (h : v ≠ empty) : v.semitones ≠ [] := by
  intro hnil
  refine h (Voicing.ext (funext fun r => ?_))
  rw [get?_empty, Option.eq_none_iff_forall_ne_some]
  intro x hx
  have hmem : x ∈ v.semitones := List.mem_map_of_mem (mem_toList.2 hx)
  rw [hnil] at hmem
  cases hmem

/-- The same tones with another separator between them. -/
def Display.joinedBy (separator : String) (shown : Display) : Display :=
  { shown with text := joinSemitones separator shown.semitones }

theorem Display.ofVoicing_joinedBy (a b : String) (v : Voicing) :
    ofVoicing b v = (ofVoicing a v).map (joinedBy b) := by
  unfold ofVoicing
  cases v.toList.mapM toneName <;> rfl

def Chord.joinedBy (separator : String) (c : Chord) : Chord :=
  { c with display := c.display.joinedBy separator }

theorem Interpreter.parse_joinedBy (i : Interpreter) (separator symbol : String) :
    ({ i with separator } : Interpreter).parse symbol =
      (i.parse symbol).map (·.joinedBy separator) := by
  have hresolve : ({ i with separator } : Interpreter).resolve symbol = i.resolve symbol := rfl
  unfold parse
  rw [hresolve]
  cases i.resolve symbol with
  | error e => rfl
  | ok r =>
    simp only [bind, Except.bind]
    cases i.lexicon.derive r.tokens with
    | error e => rfl
    | ok d =>
      simp only [Display.ofVoicing_joinedBy i.separator separator]
      cases Display.ofVoicing i.separator d.voicing <;> rfl

/-- Another separator gives the same refusal, or the same chord with its tones joined otherwise. What a
voicing with any tones is shown as can be cut at its separator and read back, number by number, if the
separator has a character that is neither a digit nor a minus sign. -/
theorem Interpreter.separator_faithful :
    (∀ (i : Interpreter) (separator symbol : String),
      ({ i with separator } : Interpreter).parse symbol =
        (i.parse symbol).map (·.joinedBy separator)) ∧
    ∀ (separator : String) (v : Voicing),
      (∃ c ∈ separator.toList, ¬Decimal.IsNumeral c) → v ≠ .empty →
        ∃ shown, Display.ofVoicing separator v = .ok shown ∧ shown.semitones = v.semitones ∧
          (shown.text.split separator).toList.map (·.toInt?) = shown.semitones.map some := by
  refine ⟨parse_joinedBy, fun separator v hsep hne => ?_⟩
  obtain ⟨shown, hshown⟩ := Display.exists_ofVoicing separator v
  obtain ⟨names, -, rfl⟩ := Display.ofVoicing_eq_ok.1 hshown
  exact ⟨_, hshown, rfl, toInt?_split_joinSemitones hsep (Voicing.semitones_ne_nil hne)⟩

/-- The text is "11·1111·1-1": the digits beside the dot are the separator's. -/
theorem Interpreter.separator_faithful_digits :
    ∃ shown, Display.ofVoicing "1·1" (.ofList [(.root, 1), (.third, 11), (.fifth, -1)]) = .ok shown ∧
      shown.text = "11·1111·1-1" ∧
      (shown.text.split "1·1").toList.map (·.toInt?) = [some 1, some 11, some (-1)] := by
  obtain ⟨shown, hshown, hsemitones, hread⟩ := Interpreter.separator_faithful.2 "1·1"
    (.ofList [(.root, 1), (.third, 11), (.fifth, -1)]) ⟨'·', by decide, by decide⟩ (by decide)
  refine ⟨shown, hshown, ?_, ?_⟩
  · cases hshown
    decide
  · rw [hread, hsemitones]
    decide

end ChordSymbol
