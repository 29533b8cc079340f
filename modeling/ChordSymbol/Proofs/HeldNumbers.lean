import ChordSymbol.Proofs.RoleFormula
import ChordSymbol.Proofs.ToneNames

/-! Numbers that are held. Where the rules of a lexicon carry only such numbers, nothing else ever sounds,
since a sum past their ends comes back among them. So the one thing that a chord's tones can be too far up
for is the sum with their root. -/
namespace ChordSymbol

theorem Role.held_natural (r : Role) : Semitones.Held r.natural := by cases r <;> decide

namespace Edit

variable {e : Edit} {q : Role} {x : Option Int} {y : Int}

/-- An edit writes its own amount or a sum, or leaves what was there. -/
theorem held_effect (he : e.Held) (hx : ∀ y, x = some y → Semitones.Held y)
    (h : e.effect q x = some y) : Semitones.Held y := by
  cases e with
  | replace r v =>
    simp only [effect] at h
    split at h
    · cases h
      exact he _ rfl
    · split at h
      · cases h
        cases x with
        | none => exact Role.held_natural q
        | some y => exact hx y rfl
      · exact hx y h
  | modify r d =>
    simp only [effect] at h
    split at h
    · cases h
      exact Semitones.held_sum _ d
    · exact hx y h
  | add r v =>
    simp only [effect] at h
    split at h
    · cases h
      exact he _ rfl
    · exact hx y h
  | remove r =>
    simp only [effect] at h
    split at h
    · cases h
    · exact hx y h

end Edit

namespace Voicing

variable {v : Voicing} {e : Edit} {es : List Edit}

/-- All that sounds is held. -/
def Held (v : Voicing) : Prop := ∀ r x, v.get? r = some x → Semitones.Held x

theorem Held.apply (hv : v.Held) (he : e.Held) : (v.apply e).Held := by
  intro r x hx
  rw [get?_apply] at hx
  exact Edit.held_effect he (hv r) hx

/-- The run: what is held stays held. -/
theorem Held.applyAll (hv : v.Held) (hes : ∀ e ∈ es, e.Held) : (v.applyAll es).Held := by
  induction es generalizing v with
  | nil => exact hv
  | cons e es ih =>
    obtain ⟨he, hes⟩ := List.forall_mem_cons.1 hes
    exact ih (hv.apply he) hes

theorem Held.set (hv : v.Held) (r : Role) {x : Int} (hx : Semitones.Held x) : (v.set r x).Held := by
  intro q y hy
  rw [get?_set] at hy
  split at hy
  · cases hy
    exact hx
  · exact hv q y hy

theorem held_rootOnly : rootOnly.Held := by
  have hempty : empty.Held := fun _ _ h => nomatch h
  exact hempty.set .root (by decide)

theorem held_majorTriad : majorTriad.Held :=
  (held_rootOnly.set .third (by decide)).set .fifth (by decide)

theorem Held.semitones (hv : v.Held) : ∀ x ∈ v.semitones, Semitones.Held x := by
  intro x hx
  obtain ⟨e, he, rfl⟩ := List.mem_map.1 hx
  exact hv e.1 e.2 (mem_toList.1 he)

end Voicing

namespace Lexicon

variable {lx : Lexicon} {ms : List Modifier} {ts : List Token} {d : Derivation}

/-- The rules carry nothing but what is held. -/
def Held (lx : Lexicon) : Prop := ∀ r ∈ lx.rules, ∀ e ∈ r.edits, e.Held

theorem Held.start (h : lx.Held) (ms : List Modifier) : (lx.start ms).Held := by
  unfold Lexicon.start implied
  split
  · exact Voicing.held_rootOnly
  · split
    · next r hr => exact Voicing.held_rootOnly.applyAll (h r (List.mem_of_find?_eq_some hr))
    · exact Voicing.held_majorTriad

theorem Held.derive (h : lx.Held) (hd : lx.derive ts = .ok d) : d.voicing.Held := by
  unfold Lexicon.derive at hd
  split at hd
  · cases hd
  · next ms hms =>
    cases hd
    refine (h.start ms).applyAll fun e he => ?_
    obtain ⟨⟨s, e⟩, hse, rfl⟩ := List.mem_map.1 he
    obtain ⟨m, hm, hme⟩ := List.mem_flatMap.1 hse
    obtain ⟨e, hedit, heq⟩ := List.mem_map.1 hme
    cases heq
    exact h m.rule (rule_mem_of_modifiers hms (Modifier.mem_inOrder.1 hm)) _ hedit

theorem held_standard : standard.Held := by
  intro r hr e he y hy
  obtain ⟨hlow, hhigh⟩ := amount_small r hr e he y hy
  exact ⟨Int.le_trans (by decide) hlow, Int.le_trans hhigh (by decide)⟩

end Lexicon

namespace Interpreter

variable {i : Interpreter} {symbol : String} {c : Chord}

/-- The tones of a chord are held, and unless a tone is within eleven of the greatest number, its pitch
class is as far above the root's as its name says. -/
theorem parse_held (hlx : i.lexicon.Held) (h : i.parse symbol = .ok c) : c.voicing.Held ∧
    ∃ p, Note.pitchClass? c.root = some p ∧
      ∀ (k : Nat) x n, c.display.semitones[k]? = some x → c.display.names[k]? = some n →
        x ≤ 2147483636 → c.pitchClasses[k]? = some ((p + Interval.names.idxOf n) % 12) := by
  have hsemitones := semitones_of_parse h
  obtain ⟨r, d, shown, -, hd, -, hc⟩ := exists_reading h
  have hheld : c.voicing.Held := hc ▸ hlx.derive hd
  obtain ⟨p, hp, hshown, hclasses⟩ := pitchClasses_of_root h
  refine ⟨hheld, p, hp, fun k x n hx hn hfar => ?_⟩
  have hmem : x ∈ c.voicing.semitones := hsemitones ▸ List.mem_of_getElem? hx
  have hx' := hheld.semitones x hmem
  rw [hclasses, Display.getElem?_pitchClasses_iff_held (Note.pitchClass?_byte hp) hshown hx hx' hn]
  exact Note.held_add_of_pitchClass? hp hx' hfar

end Interpreter
end ChordSymbol
