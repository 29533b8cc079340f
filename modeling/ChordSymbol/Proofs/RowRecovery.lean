import ChordSymbol.Proofs.CsvReading
import ChordSymbol.Proofs.JoinedNumbers
import ChordSymbol.Proofs.SlashCut

/-! Rows told from their comma-separated values. Answers, reasons and what is absent all become texts, and
no two of them the same text: numbers start with digits or a minus sign, and no bass is empty. -/
namespace ChordSymbol

namespace Comparison

/-- The bass of a slash chord is a note, so it is no empty text. -/
theorem bass_ne_empty {i : Interpreter} {chord : String} {xs : List Int} {bass : Option String}
    (h : answer i chord = .ok (xs, bass)) : bass ≠ some "" := by
  cases hcut : SlashChord.cut chord with
  | error f => cases (answer_of_cut_error hcut).symm.trans h
  | ok p =>
    obtain ⟨head, bass'⟩ := p
    rw [answer_of_cut hcut] at h
    cases hc : i.parse head with
    | error e =>
      rw [hc] at h
      cases h
    | ok c =>
      rw [hc] at h
      cases h
      rintro rfl
      cases (SlashChord.cut_eq_ok_some.1 hcut).2

theorem Outcome.ofName?_name (o : Outcome) : ofName? o.name = some o := by cases o <;> decide

theorem Outcome.name_inj {o o' : Outcome} : o.name = o'.name ↔ o = o' := by
  refine ⟨fun h => ?_, congrArg name⟩
  have ho := ofName?_name o
  rw [h, ofName?_name] at ho
  exact (Option.some.inj ho).symm

namespace Row

variable {r s : Row}

/-- What is true of a row that a comparison makes: there is an answer or a reason and not both, and what
stands for the bass is not empty. -/
structure Settled (r : Row) : Prop where
  answered : r.semitones.isSome = true ↔ r.reason = none
  bass : r.bass ≠ some ""

theorem Settled.cases (h : r.Settled) : (∃ xs, r.semitones = some xs ∧ r.reason = none) ∨
    ∃ e, r.semitones = none ∧ r.reason = some e := by
  cases hxs : r.semitones with
  | some xs => exact .inl ⟨xs, rfl, h.answered.1 (by rw [hxs]; rfl)⟩
  | none =>
    cases he : r.reason with
    | some e => exact .inr ⟨e, rfl, rfl⟩
    | none =>
      have hanswer := h.answered.2 he
      rw [hxs] at hanswer
      cases hanswer

theorem bassCell_inj (hr : r.Settled) (hs : s.Settled) :
    r.bass.getD "" = s.bass.getD "" ↔ r.bass = s.bass := by
  have hr := hr.bass
  have hs := hs.bass
  cases hrb : r.bass with
  | none =>
    cases hsb : s.bass with
    | none => simp
    | some b => simpa [hsb, eq_comm] using hs
  | some a =>
    cases hsb : s.bass with
    | none => simpa [hrb] using hr
    | some b => simp

theorem joined_inj {xs ys : List Int} : joinSemitones Display.defaultSeparator xs =
    joinSemitones Display.defaultSeparator ys ↔ xs = ys :=
  joinSemitones_inj ⟨'·', by decide, by decide⟩

/-- A text that starts with a letter is no list of numbers. -/
theorem joined_ne {xs : List Int} {text : String} {c : Char} (hc : text.toList.head? = some c)
    (hletter : ¬Decimal.IsNumeral c) : joinSemitones Display.defaultSeparator xs ≠ text := by
  rintro rfl
  exact hletter (isNumeral_of_head? hc)

theorem joined_ne_error (xs : List Int) (e : String) :
    joinSemitones Display.defaultSeparator xs ≠ "error: " ++ e := by
  refine joined_ne (c := 'e') ?_ (by decide)
  simp

theorem interpreterCell_inj (hr : r.Settled) (hs : s.Settled) :
    r.interpreterCell = s.interpreterCell ↔ r.semitones = s.semitones ∧ r.reason = s.reason := by
  unfold interpreterCell
  obtain ⟨xs, hxs, hre⟩ | ⟨e, hrx, he⟩ := hr.cases
  · obtain ⟨ys, hys, hse⟩ | ⟨e', hsx, he'⟩ := hs.cases
    · simp [hxs, hys, hre, hse, joined_inj]
    · simp [hxs, hsx, hre, he', joined_ne_error]
  · obtain ⟨ys, hys, hse⟩ | ⟨e', hsx, he'⟩ := hs.cases
    · simp [hrx, hys, he, hse, (joined_ne_error _ _).symm]
    · simp [hrx, hsx, he, he']

theorem handbookCell_inj : r.handbookCell = s.handbookCell ↔ r.handbook = s.handbook := by
  have hne (xs : List Int) : joinSemitones Display.defaultSeparator xs ≠ "unsupported" :=
    joined_ne (c := 'u') (by decide) (by decide)
  unfold handbookCell
  cases r.handbook with
  | some xs =>
    cases s.handbook with
    | some ys => simp [joined_inj]
    | none => simp [hne]
  | none =>
    cases s.handbook with
    | some ys => simp [(hne _).symm]
    | none => simp

/-- Each column tells its own field. -/
theorem cells_inj (hr : r.Settled) (hs : s.Settled) : r.cells = s.cells ↔ r = s := by
  refine ⟨fun h => ?_, congrArg cells⟩
  simp only [cells, List.cons.injEq, and_true, bassCell_inj hr hs, interpreterCell_inj hr hs,
    handbookCell_inj, Outcome.name_inj] at h
  obtain ⟨hchord, hbass, ⟨hsemitones, hreason⟩, hhandbook, houtcome⟩ := h
  cases r
  cases s
  rw [Row.mk.injEq]
  exact ⟨hchord, hbass, hsemitones, hreason, hhandbook, houtcome⟩

theorem settled_row (i : Interpreter) (chord : String) : (row i chord).Settled := by
  unfold row
  cases h : answer i chord with
  | ok p => exact ⟨by simp, bass_ne_empty h⟩
  | error e => exact ⟨by simp, by simp⟩

end Row

variable {rs ss : List Row}

theorem map_cells_inj (hr : ∀ r ∈ rs, r.Settled) (hs : ∀ s ∈ ss, s.Settled) :
    rs.map (·.cells) = ss.map (·.cells) ↔ rs = ss := by
  induction rs generalizing ss with
  | nil => simp [eq_comm]
  | cons r rs ih =>
    cases ss with
    | nil => simp
    | cons s ss =>
      obtain ⟨hr, hrs⟩ := List.forall_mem_cons.1 hr
      obtain ⟨hs, hss⟩ := List.forall_mem_cons.1 hs
      simp only [List.map_cons, List.cons.injEq, Row.cells_inj hr hs, ih hrs hss]

theorem read?_table_cells (rs : List Row) :
    Csv.read? (toCsv rs) = some (header :: rs.map (·.cells)) :=
  Csv.read?_table fun _ => ne_nil_of_mem_records

theorem toCsv_inj : toCsv rs = toCsv ss ↔ rs.map (·.cells) = ss.map (·.cells) := by
  constructor
  · intro h
    have hrs := read?_table_cells rs
    rw [h, read?_table_cells ss] at hrs
    exact (List.cons.inj (Option.some.inj hrs)).2.symm
  · intro h
    rw [toCsv, toCsv, h]

theorem settled_of_mem_rows {i : Interpreter} {chords : List String} :
    ∀ r ∈ rows i chords, r.Settled := by
  intro r hr
  obtain ⟨chord, -, rfl⟩ := List.mem_map.1 hr
  exact Row.settled_row i chord

/-- Two comparisons that give the same comma-separated values have the same rows, whatever interpreters
made them. Column by column, what is absent is not taken for anything present: no bass for a bass, no
answer for a reason or the reverse, or an unsupported chord for a listed one. -/
theorem toCsv_rows_inj (i j : Interpreter) :
    (∀ xs ys, toCsv (rows i xs) = toCsv (rows j ys) ↔ rows i xs = rows j ys) ∧
    ∀ x y, ((row i x).bass.getD "" = (row j y).bass.getD "" ↔ (row i x).bass = (row j y).bass) ∧
      ((row i x).interpreterCell = (row j y).interpreterCell ↔
        (row i x).semitones = (row j y).semitones ∧ (row i x).reason = (row j y).reason) ∧
      ((row i x).handbookCell = (row j y).handbookCell ↔
        (row i x).handbook = (row j y).handbook) := by
  refine ⟨fun xs ys => ?_, fun x y => ⟨?_, ?_, Row.handbookCell_inj⟩⟩
  · rw [toCsv_inj, map_cells_inj settled_of_mem_rows settled_of_mem_rows]
  · exact Row.bassCell_inj (Row.settled_row i x) (Row.settled_row j y)
  · exact Row.interpreterCell_inj (Row.settled_row i x) (Row.settled_row j y)

end Comparison
end ChordSymbol
