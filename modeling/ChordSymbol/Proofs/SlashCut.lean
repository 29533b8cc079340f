import ChordSymbol.Comparison.Basic

/-! Symbols cut at the first slash. What follows is one whole note or the symbol is refused, whatever
stands in front. -/
namespace ChordSymbol

namespace Text

variable {sep : Char} {cs before after : List Char}

theorem takeWhile_of_cutChars? (h : cutChars? sep cs = some (before, after)) :
    cs.takeWhile (· ≠ sep) = before := by
  obtain ⟨rfl, hsep⟩ := cutChars?_eq_some.1 h
  rw [List.takeWhile_append_of_pos fun c hc => by simpa using ne_of_mem_of_not_mem hc hsep]
  simp

theorem takeWhile_of_cutChars?_eq_none (h : cutChars? sep cs = none) :
    cs.takeWhile (· ≠ sep) = cs := by
  have hsep := cutChars?_eq_none.1 h
  have happ : (cs ++ []).takeWhile (· ≠ sep) = cs ++ [].takeWhile (· ≠ sep) :=
    List.takeWhile_append_of_pos fun c hc => decide_eq_true (ne_of_mem_of_not_mem hc hsep)
  rwa [List.takeWhile_nil, List.append_nil] at happ

/-- A text is what stands before the first separator, and nothing more or the separator. -/
theorem exists_tail (sep : Char) (cs : List Char) : ∃ tail,
    cs = cs.takeWhile (· ≠ sep) ++ tail ∧ (tail = [] ∨ [sep] <+: tail) := by
  cases hcut : cutChars? sep cs with
  | none => exact ⟨[], by rw [takeWhile_of_cutChars?_eq_none hcut, List.append_nil], .inl rfl⟩
  | some p =>
    obtain ⟨before, after⟩ := p
    refine ⟨sep :: after, ?_, .inr ⟨after, rfl⟩⟩
    rw [takeWhile_of_cutChars? hcut]
    exact (cutChars?_eq_some.1 hcut).1

end Text

namespace Note

/-- The characters of one whole note. -/
inductive Whole : List Char → Prop
  | plain {c : Char} (hc : IsLetter c) : Whole [c]
  | altered {c a : Char} (hc : IsLetter c) (ha : a ∈ accidentals) : Whole [c, a]

theorem whole_iff {cs : List Char} : Whole cs ↔ ∃ note, cutChars? cs = some (note, []) := by
  constructor
  · rintro (@⟨c, hc⟩ | @⟨c, a, hc, ha⟩)
    · exact ⟨[c], by simp [cutChars?, hc]⟩
    · exact ⟨[c, a], by simp [cutChars?, hc, ha]⟩
  · rintro ⟨note, h⟩
    unfold cutChars? at h
    split at h
    · cases h
    · next c cs =>
      split at h
      · next hc =>
        split at h
        · exact .plain hc
        · next a rest =>
          split at h
          · next ha =>
            cases h
            exact .altered hc ha
          · cases h
      · cases h

theorem whole_of_cut {symbol root suffix : String}
    (h : cut symbol = .ok (root, suffix)) : Whole root.toList := by
  obtain ⟨-, ⟨c, hroot, hc, -⟩ | ⟨c, a, hroot, hc, ha⟩⟩ := cutChars?_eq_some.1 (cut_eq_ok.1 h)
  · rw [hroot]
    exact .plain hc
  · rw [hroot]
    exact .altered hc ha

end Note

namespace SlashChord

variable {symbol head bass : String} {f : Failure}

/-- `head` and `bass` stand before and after the first slash. -/
def Parted (symbol head bass : String) : Prop := symbol = head ++ "/" ++ bass ∧ '/' ∉ head.toList

theorem parted_iff : Parted symbol head bass ↔ Text.cut? '/' symbol = some (head, bass) := by
  rw [Text.cut?_eq_some, Parted, ← String.toList_inj]
  simp

theorem whole_iff_cut : Note.Whole bass.toList ↔ ∃ note, Note.cut bass = .ok (note, "") := by
  simp only [Note.whole_iff, Note.cut_eq_ok]
  constructor
  · rintro ⟨note, h⟩
    exact ⟨String.ofList note, by simpa using h⟩
  · rintro ⟨note, h⟩
    exact ⟨note.toList, h⟩

/-- How a symbol is cut: not at all, over a bass, or in vain. -/
inductive Cuts (symbol : String) : Except Failure (String × Option String) → Prop
  | uncut (h : '/' ∉ symbol.toList) : Cuts symbol (.ok (symbol, none))
  | onBass {head bass : String} (h : Parted symbol head bass) (hbass : Note.Whole bass.toList) :
      Cuts symbol (.ok (head, some bass))
  | bad {head bass : String} (h : Parted symbol head bass) (hbass : ¬Note.Whole bass.toList) :
      Cuts symbol (.error (.invalidBass symbol bass))

theorem cuts_cut (symbol : String) : Cuts symbol (cut symbol) := by
  unfold cut
  cases h : Text.cut? '/' symbol with
  | none => exact .uncut (Text.cut?_eq_none.1 h)
  | some p =>
    have hparted : Parted symbol p.1 p.2 := parted_iff.2 h
    simp only
    split
    · next note hnote => exact .onBass hparted (whole_iff_cut.2 ⟨note, hnote⟩)
    · next hnone =>
      refine .bad hparted fun hwhole => ?_
      obtain ⟨note, hnote⟩ := whole_iff_cut.1 hwhole
      exact hnone note hnote

theorem Cuts.cut_eq {x : Except Failure (String × Option String)} (h : Cuts symbol x) :
    cut symbol = x := by
  cases h with
  | uncut h => rw [cut, Text.cut?_eq_none.2 h]
  | onBass h hbass =>
    obtain ⟨note, hnote⟩ := whole_iff_cut.1 hbass
    rw [cut, parted_iff.1 h]
    simp only [hnote]
  | bad h hbass =>
    rw [cut, parted_iff.1 h]
    simp only
    split
    · next note hnote => exact absurd (whole_iff_cut.2 ⟨note, hnote⟩) hbass
    · rfl

theorem cut_eq_iff {x : Except Failure (String × Option String)} : cut symbol = x ↔ Cuts symbol x :=
  ⟨fun h => h ▸ cuts_cut symbol, Cuts.cut_eq⟩

theorem cut_eq_ok_none : cut symbol = .ok (head, none) ↔ '/' ∉ symbol.toList ∧ head = symbol := by
  rw [cut_eq_iff]
  constructor
  · intro h
    cases h with
    | uncut h => exact ⟨h, rfl⟩
  · rintro ⟨h, rfl⟩
    exact .uncut h

theorem cut_eq_ok_some : cut symbol = .ok (head, some bass) ↔
    Parted symbol head bass ∧ Note.Whole bass.toList := by
  rw [cut_eq_iff]
  constructor
  · intro h
    cases h with
    | onBass h hbass => exact ⟨h, hbass⟩
  · rintro ⟨h, hbass⟩
    exact .onBass h hbass

theorem cut_eq_error : cut symbol = .error f ↔
    ∃ head bass, Parted symbol head bass ∧ ¬Note.Whole bass.toList ∧ f = .invalidBass symbol bass := by
  rw [cut_eq_iff]
  constructor
  · intro h
    cases h with
    | bad h hbass => exact ⟨_, _, h, hbass, rfl⟩
  · rintro ⟨head, bass, h, hbass, rfl⟩
    exact .bad h hbass

/-- What follows the first slash is not a whole note. -/
def BadBass (symbol : String) : Prop :=
  ∃ head bass, symbol.toList = head ++ '/' :: bass ∧ '/' ∉ head ∧ ¬Note.Whole bass

theorem cutChars?_of_parted (h : Parted symbol head bass) :
    Text.cutChars? '/' symbol.toList = some (head.toList, bass.toList) :=
  Text.cutChars?_eq_some.2 (Text.cut?_eq_some.1 (parted_iff.1 h))

theorem badBass_iff (h : Parted symbol head bass) : BadBass symbol ↔ ¬Note.Whole bass.toList := by
  have hcut := cutChars?_of_parted h
  constructor
  · rintro ⟨head', bass', hs, hhead, hbass⟩
    cases hcut.symm.trans (Text.cutChars?_eq_some.2 ⟨hs, hhead⟩)
    exact hbass
  · intro hbass
    obtain ⟨hs, hhead⟩ := Text.cutChars?_eq_some.1 hcut
    exact ⟨_, _, hs, hhead, hbass⟩

theorem cut_cases (symbol : String) :
    (BadBass symbol ∧ ∃ bass, cut symbol = .error (.invalidBass symbol bass)) ∨
      (¬BadBass symbol ∧ ∃ bass,
        cut symbol = .ok (String.ofList (symbol.toList.takeWhile (· ≠ '/')), bass)) := by
  have h := cuts_cut symbol
  generalize cut symbol = x at h
  cases h with
  | uncut h =>
    refine .inr ⟨?_, none, ?_⟩
    · rintro ⟨head, bass, hs, -, -⟩
      exact h (by simp [hs])
    · rw [Text.takeWhile_of_cutChars?_eq_none (Text.cutChars?_eq_none.2 h), String.ofList_toList]
  | @onBass head bass h hbass =>
    refine .inr ⟨fun hbad => (badBass_iff h).1 hbad hbass, some bass, ?_⟩
    rw [Text.takeWhile_of_cutChars? (cutChars?_of_parted h), String.ofList_toList]
  | bad h hbass => exact .inl ⟨(badBass_iff h).2 hbass, _, rfl⟩

end SlashChord

namespace Interpreter

variable {i : Interpreter} {symbol head : String} {bass : Option String} {c : Chord} {f : Failure}

theorem parseSlash_eq (hcut : SlashChord.cut symbol = .ok (head, bass)) :
    i.parseSlash symbol = (Failure.ofRefusal (i.parse head)).map (⟨·, bass⟩) := by
  unfold parseSlash
  rw [hcut]
  simp only [bind, Except.bind, pure, Except.pure]
  cases i.parse head <;> rfl

theorem parseSlash_of_cut (hcut : SlashChord.cut symbol = .ok (head, bass))
    (hc : i.parse head = .ok c) : i.parseSlash symbol = .ok ⟨c, bass⟩ := by
  rw [parseSlash_eq hcut, hc]
  rfl

theorem parseSlash_of_cut_error (hcut : SlashChord.cut symbol = .error f) :
    i.parseSlash symbol = .error f := by
  unfold parseSlash
  rw [hcut]
  rfl

end Interpreter

namespace Comparison

variable {i : Interpreter} {symbol head : String} {bass : Option String} {f : Failure}

theorem answer_of_cut (hcut : SlashChord.cut symbol = .ok (head, bass)) : answer i symbol =
    (Failure.ofRefusal (i.parse head)).map fun c => (c.display.semitones, bass) := by
  unfold answer
  rw [hcut]
  simp only [bind, Except.bind, pure, Except.pure]
  cases i.parse head <;> rfl

theorem answer_of_cut_error (hcut : SlashChord.cut symbol = .error f) :
    answer i symbol = .error f := by
  unfold answer
  rw [hcut]
  rfl

end Comparison

end ChordSymbol
