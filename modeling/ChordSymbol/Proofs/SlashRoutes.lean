import ChordSymbol.CommandLine.Run
import ChordSymbol.Proofs.EventOrder
import ChordSymbol.Proofs.SlashCut

/-! Slash chords are read on their own, read with a log, and read to be compared. Each of the three cuts
the symbol and reads its head for itself, and they come to the same. -/
namespace ChordSymbol

/-- What a row says of a slash chord, or of the reason why there is none. -/
def Comparison.Row.Reports (r : Row) : Except Failure SlashChord → Prop
  | .ok c => r.semitones = some c.chord.display.semitones ∧ r.bass = c.bass ∧ r.reason = none
  | .error f => r.semitones = none ∧ r.bass = none ∧ r.reason = some f.message

namespace Interpreter

/-- Read on its own, with a log or to be compared, the symbol comes to `answer`. -/
structure ComesTo (i : Interpreter) (symbol : String) (answer : Except Failure SlashChord) : Prop where
  parsed : i.parseSlash symbol = answer
  traced : (i.observeSlash symbol).2 = answer
  compared : (Comparison.row i symbol).Reports answer

variable {i : Interpreter} {symbol head : String} {bass : Option String} {f : Failure}

theorem observeSlash_eq (hcut : SlashChord.cut symbol = .ok (head, bass)) : i.observeSlash symbol =
    ((i.observe head).events, (Failure.ofRefusal (i.parse head)).map (⟨·, bass⟩)) := by
  rw [observeSlash, hcut]
  simp only [observe_outcome]

theorem observeSlash_of_cut_error (hcut : SlashChord.cut symbol = .error f) :
    i.observeSlash symbol = ([], .error f) := by
  rw [observeSlash, hcut]

theorem row_reports_of_cut (hcut : SlashChord.cut symbol = .ok (head, bass)) :
    (Comparison.row i symbol).Reports ((Failure.ofRefusal (i.parse head)).map (⟨·, bass⟩)) := by
  unfold Comparison.row
  rw [Comparison.answer_of_cut hcut]
  cases i.parse head with
  | ok c => exact ⟨rfl, rfl, rfl⟩
  | error e => exact ⟨rfl, rfl, rfl⟩

theorem row_reports_of_cut_error (hcut : SlashChord.cut symbol = .error f) :
    (Comparison.row i symbol).Reports (.error f) := by
  unfold Comparison.row
  rw [Comparison.answer_of_cut_error hcut]
  exact ⟨rfl, rfl, rfl⟩

theorem comesTo_of_cut (hcut : SlashChord.cut symbol = .ok (head, bass)) :
    i.ComesTo symbol ((Failure.ofRefusal (i.parse head)).map (⟨·, bass⟩)) where
  parsed := parseSlash_eq hcut
  traced := by rw [observeSlash_eq hcut]
  compared := row_reports_of_cut hcut

theorem comesTo_of_cut_error (hcut : SlashChord.cut symbol = .error f) :
    i.ComesTo symbol (.error f) where
  parsed := parseSlash_of_cut_error hcut
  traced := by rw [observeSlash_of_cut_error hcut]
  compared := row_reports_of_cut_error hcut

/-- What a row says is what reading the symbol on its own comes to. -/
theorem row_reports (i : Interpreter) (symbol : String) :
    (Comparison.row i symbol).Reports (i.parseSlash symbol) := by
  cases hcut : SlashChord.cut symbol with
  | error f =>
    rw [parseSlash_of_cut_error hcut]
    exact row_reports_of_cut_error hcut
  | ok p =>
    rw [parseSlash_eq hcut]
    exact row_reports_of_cut hcut

end Interpreter

namespace CommandLine

/-- The same report, its error output behind a log. -/
def Report.after (log : List String) (r : Report) : Report :=
  { r with errors := Report.lines log ++ r.errors }

theorem Report.lines_append (xs ys : List String) :
    Report.lines (xs ++ ys) = Report.lines xs ++ Report.lines ys := by
  simp only [Report.lines, List.map_append, String.join_append]

/-- A traced run is a run after its log. -/
theorem runParse_traced (i : Interpreter) (color : Bool) (symbol : String) (json : Bool)
    (h : (i.observeSlash symbol).2 = i.parseSlash symbol) : runParse i color symbol true json =
      (runParse i color symbol false json).after ((i.observeSlash symbol).1.map (Event.line color)) := by
  simp only [runParse, if_true, Bool.false_eq_true, if_false, h]
  cases i.parseSlash symbol with
  | error f => simp [Report.failure, Report.after, Report.lines_append]
  | ok c => simp [Report.success, Report.after, Report.lines]

end CommandLine

namespace Interpreter

/-- The first slash parts head and bass, and the bass is a whole note or the symbol is refused, whatever
its head. Otherwise the chord is the head's, whatever the bass. All ways of reading come to that; a run
with a log prints it before the same report. -/
theorem slash_routes_agree (i : Interpreter) (symbol : String) (color json : Bool) :
    (∀ head, SlashChord.cut symbol = .ok (head, none) ↔ '/' ∉ symbol.toList ∧ head = symbol) ∧
    (∀ head bass, SlashChord.cut symbol = .ok (head, some bass) ↔
      SlashChord.Parted symbol head bass ∧ Note.Whole bass.toList) ∧
    (∀ f, SlashChord.cut symbol = .error f ↔ ∃ head bass,
      SlashChord.Parted symbol head bass ∧ ¬Note.Whole bass.toList ∧ f = .invalidBass symbol bass) ∧
    (∀ f, SlashChord.cut symbol = .error f → i.ComesTo symbol (.error f) ∧
      CommandLine.runParse i color symbol true json = CommandLine.runParse i color symbol false json) ∧
    (∀ head bass, SlashChord.cut symbol = .ok (head, bass) →
      i.ComesTo symbol ((Failure.ofRefusal (i.parse head)).map (⟨·, bass⟩)) ∧
      CommandLine.runParse i color symbol true json =
        (CommandLine.runParse i color symbol false json).after (i.log color [head])) := by
  refine ⟨fun head => SlashChord.cut_eq_ok_none, fun head bass => SlashChord.cut_eq_ok_some,
    fun f => SlashChord.cut_eq_error, fun f hcut => ?_, fun head bass hcut => ?_⟩
  · have hc := comesTo_of_cut_error (i := i) hcut
    refine ⟨hc, ?_⟩
    rw [CommandLine.runParse_traced _ _ _ _ (hc.traced.trans hc.parsed.symm),
      observeSlash_of_cut_error hcut]
    simp [CommandLine.Report.after, CommandLine.Report.lines]
  · have hc := comesTo_of_cut (i := i) hcut
    refine ⟨hc, ?_⟩
    rw [CommandLine.runParse_traced _ _ _ _ (hc.traced.trans hc.parsed.symm), observeSlash_eq hcut,
      log_eq, List.flatMap_singleton]

end Interpreter
end ChordSymbol
