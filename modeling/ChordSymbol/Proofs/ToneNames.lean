import ChordSymbol.Proofs.AuditTrail
import ChordSymbol.Proofs.Transposition

/-! Roles, names and pitch classes of the tones of a chord. A name is reduced to the octave by itself and a
pitch class after it is added to the root, so that they say the same of every tone whose sum with the root
is held. -/
namespace ChordSymbol

namespace Interval

variable {x : Int} {n : String}

theorem idxOf_of_name? (h : name? x = some n) : (names.idxOf n : Int) = x := by
  unfold name? at h
  split at h
  · next k =>
    obtain ⟨hk, rfl⟩ := List.getElem?_eq_some_iff.1 h
    have hnodup : names.Nodup := by decide
    rw [hnodup.idxOf_getElem k hk]
    rfl
  · cases h

end Interval

namespace Voicing

variable {v : Voicing}

end Voicing

namespace Display

variable {separator : String} {v : Voicing} {shown : Display} {n : String} {e : Role × Int}

theorem toneName_eq_ok : toneName e = .ok n ↔ Interval.name? (e.2 % 12) = some n := by
  unfold toneName
  cases Interval.name? (e.2 % 12) with
  | none => simp
  | some m => simp

/-- The names are those of the tones, one by one. -/
theorem named_of_ofVoicing (h : ofVoicing separator v = .ok shown) :
    List.Forall₂ (fun x n => Interval.name? (x % 12) = some n) shown.semitones shown.names := by
  obtain ⟨names, hnames, rfl⟩ := ofVoicing_eq_ok.1 h
  simp only [mapM_eq_ok_iff, toneName_eq_ok] at hnames
  exact List.forall₂_map_left_iff.2 hnames

/-- A pitch class can be told from the name, just when the sum is held. -/
theorem getElem?_pitchClasses_iff_held {p x : Int} {k : Nat} (hp : 0 ≤ p ∧ p ≤ 255)
    (h : ofVoicing separator v = .ok shown) (hx : shown.semitones[k]? = some x)
    (hheld : Semitones.Held x) (hn : shown.names[k]? = some n) :
    (v.pitchClasses p)[k]? = some ((p + Interval.names.idxOf n) % 12) ↔ Semitones.Held (p + x) := by
  have hname : Interval.name? (x % 12) = some n := by
    obtain ⟨hk, rfl⟩ := List.getElem?_eq_some_iff.1 hx
    obtain ⟨hk', rfl⟩ := List.getElem?_eq_some_iff.1 hn
    exact (List.forall₂_iff_get.1 (named_of_ofVoicing h)).2 k hk hk'
  obtain ⟨names, -, rfl⟩ := ofVoicing_eq_ok.1 h
  rw [Voicing.getElem?_pitchClasses hx, Option.some_inj, Interval.idxOf_of_name? hname,
    Int.add_emod_emod, Semitones.sum_emod_eq_iff hp hheld]

end Display

namespace Note

variable {note : String}

end Note

namespace Interpreter

theorem pitchClasses_of_root {i : Interpreter} {symbol : String} {c : Chord}
    (h : i.parse symbol = .ok c) : ∃ p, Note.pitchClass? c.root = some p ∧
      Display.ofVoicing i.separator c.voicing = .ok c.display ∧
      c.pitchClasses = c.voicing.pitchClasses p := by
  obtain ⟨r, d, shown, hr, -, hshown, rfl⟩ := exists_reading h
  obtain ⟨suffix, hcut, -, -⟩ := exists_stages hr
  obtain ⟨p, hp⟩ := Note.exists_pitchClass? (Note.whole_of_cut hcut)
  exact ⟨p, hp, hshown, by simp only [chord, hp]⟩

end Interpreter
end ChordSymbol
