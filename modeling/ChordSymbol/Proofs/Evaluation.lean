import ChordSymbol.Proofs.LongestMatch
import ChordSymbol.Proofs.Stages

/-! What a suffix stands for, worked out by structural recursion: sorting by insertion, and the loop in
as many turns as there are letters. The voicings of a whole table of suffixes can then be computed. -/
namespace ChordSymbol

theorem Pattern.ofRules_eq_insertionSort (rules : List Rule) : ofRules rules =
    (rules.zipIdx.flatMap fun e => ofRule e.2 e.1).insertionSort (before · · = true) := by
  apply mergeSort_eq_insertionSort_of_total
  · intro p q r hpq hqr
    rw [Spelling.before_iff] at *
    omega
  · intro p q
    rw [Bool.or_eq_true, Spelling.before_iff, Spelling.before_iff]
    omega

theorem Modifier.inOrder_eq_insertionSort (ms : List Modifier) : inOrder ms =
    ms.insertionSort fun a b => decide (a.rule.priority ≤ b.rule.priority) = true :=
  mergeSort_eq_insertionSort_of_total priority_trans priority_total ms

namespace Token

variable {ps : List Pattern.Spelled} {cs : List Char} {n : Nat}

/-- The loop, given up after `n` turns. -/
def scanWithin (ps : List Pattern.Spelled) : Nat → List Char → Except Refusal (List Token)
  | _, [] => .ok []
  | 0, cs => .error (.unrecognizedModifier (String.ofList cs))
  | n + 1, cs =>
    match next? ps cs with
    | none => .error (.unrecognizedModifier (String.ofList cs))
    | some (t, rest) => (scanWithin ps n rest).map (t :: ·)

/-- Every turn takes a letter at least. -/
theorem scan_eq_scanWithin (h : cs.length ≤ n) : scan ps cs = scanWithin ps n cs := by
  induction n generalizing cs with
  | zero =>
    rw [List.length_eq_zero_iff.1 (Nat.le_zero.1 h), scan_nil]
    rfl
  | succ n ih =>
    cases cs with
    | nil =>
      rw [scan_nil]
      rfl
    | cons c cs =>
      cases hnext : next? ps (c :: cs) with
      | none => simp [scan_of_stuck (List.cons_ne_nil c cs) hnext, scanWithin, hnext]
      | some found =>
        obtain ⟨t, rest⟩ := found
        have hrest : rest.length ≤ n := Nat.le_of_lt_succ ((next?_length_lt hnext).trans_le h)
        simp [scan_of_next? hnext, scanWithin, hnext, ih hrest]

end Token

namespace Lexicon

/-- The voicing that a suffix stands for, or the reason why there is none. -/
def read (lx : Lexicon) (suffix : String) : Except Refusal Voicing := do
  let ts ← lx.tokenize suffix
  let kept ← lx.validate ts
  let d ← lx.derive kept
  return d.voicing

theorem tokenize_eq_scanWithin (lx : Lexicon) (suffix : String) : lx.tokenize suffix =
    Token.scanWithin (((lx.rules.zipIdx.flatMap fun e => Pattern.ofRule e.2 e.1).insertionSort
      (Pattern.before · · = true)).filterMap Pattern.spelled?) suffix.length suffix.toList := by
  rw [tokenize, spelledPatterns, patterns, Pattern.ofRules_eq_insertionSort, ← String.length_toList]
  exact Token.scan_eq_scanWithin (Nat.le_refl _)

end Lexicon

/-- The voicing of a chord is its suffix's, whatever the root. -/
theorem Interpreter.voicing_of_parse (i : Interpreter) (symbol : String) :
    (i.parse symbol).map (·.voicing) = (Note.cut symbol).bind fun p => i.lexicon.read p.2 := by
  unfold parse resolve Lexicon.read
  cases Note.cut symbol with
  | error e => rfl
  | ok cut =>
    simp only [bind, Except.bind, pure, Except.pure]
    cases i.lexicon.tokenize cut.2 with
    | error e => rfl
    | ok ts =>
      simp only
      cases i.lexicon.validate ts with
      | error e => rfl
      | ok kept =>
        simp only
        cases i.lexicon.derive kept with
        | error e => rfl
        | ok d =>
          obtain ⟨shown, hshown⟩ := Display.exists_ofVoicing i.separator d.voicing
          simp only [hshown]
          rfl

theorem Interpreter.semitones_of_parse {i : Interpreter} {symbol : String} {c : Chord}
    (h : i.parse symbol = .ok c) : c.display.semitones = c.voicing.semitones := by
  obtain ⟨r, d, shown, -, -, hshown, rfl⟩ := exists_reading h
  obtain ⟨names, -, rfl⟩ := Display.ofVoicing_eq_ok.1 hshown
  rfl

end ChordSymbol
