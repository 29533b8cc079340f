import ChordSymbol.Proofs.Evaluation
import ChordSymbol.Proofs.RoleFormula
import ChordSymbol.Proofs.Transposition

/-! Where the tones of a chord of the built-in lexicon lie. Each role keeps to a band of its own, since
nothing is shifted but a natural value, and the bands lie one above the other. -/
namespace ChordSymbol

namespace Role

/-- The least value of a role in a chord of the built-in lexicon. -/
def lowest : Role → Int
  | root => 0
  | third => 2
  | fifth => 6
  | seventh => 9
  | ninth => 13
  | eleventh => 17
  | thirteenth => 20

/-- The greatest. -/
def highest : Role → Int
  | root => 0
  | third => 5
  | fifth => 8
  | seventh => 11
  | ninth => 15
  | eleventh => 18
  | thirteenth => 22

def InBand (r : Role) (x : Int) : Prop := r.lowest ≤ x ∧ x ≤ r.highest

instance (r : Role) (x : Int) : Decidable (r.InBand x) := inferInstanceAs (Decidable (_ ∧ _))

theorem bands_ascend : all.Pairwise fun p q => p.highest < q.lowest := by decide

end Role

namespace Voicing

variable {v : Voicing} {x : Int}

/-- In their bands the tones ascend with their roles. -/
theorem semitones_ascend (h : ∀ r x, v.get? r = some x → r.InBand x) :
    v.semitones.Pairwise (· < ·) := by
  unfold semitones toList
  rw [List.pairwise_map]
  refine List.Pairwise.filterMap _ ?_ Role.bands_ascend
  intro p q hpq e he f hf
  obtain ⟨x, hx, rfl⟩ := Option.map_eq_some_iff.1 he
  obtain ⟨y, hy, rfl⟩ := Option.map_eq_some_iff.1 hf
  have hlow := (h p x hx).2
  have hhigh := (h q y hy).1
  show x < y
  omega

/-- A root that sounds comes first. -/
theorem exists_toList_cons (h : v.get? .root = some x) : ∃ rest, v.toList = (.root, x) :: rest := by
  unfold toList Role.all
  rw [List.filterMap_cons, h]
  exact ⟨_, rfl⟩

end Voicing

namespace Lexicon

variable {ms : List Modifier} {r : Role} {x : Int}

theorem root_untouched : ∀ u ∈ standard.rules, u.touches .root = false := by decide

theorem written_in_band : ∀ u ∈ standard.rules, u.category ≠ .alteration → ∀ e ∈ u.edits,
    ∀ x, e.written? = some x → e.role.InBand x := by decide

/-- Neither the third nor the seventh is shifted, and a natural value is not shifted far. -/
theorem shifted_in_band : ∀ u ∈ standard.rules, u.category = .alteration → ∀ e ∈ u.edits,
    e.kind = .modify → (e.role ≠ .third ∧ e.role ≠ .seventh) ∧
      ∀ d, e.amount? = some d → e.role.InBand (e.role.natural + d) := by decide

/-- Beside thirds and sevenths, only qualities write values that are not natural, and these they settle. -/
theorem natural_of_written : ∀ u ∈ standard.rules, u.category ≠ .alteration → ∀ e ∈ u.edits,
    e.role ≠ .third ∧ e.role ≠ .seventh →
      u.lastKind? e.role = some .add ∨ u.category = .extension ∨ u.category = .addition →
        e.written? = some e.role.natural := by decide

theorem unwritten_in_band (h : Modifier.unwritten ms r = some x) : r.InBand x := by
  have hx := natural_of_unwritten ms r
  rw [h] at hx
  cases hx
  cases r <;> decide

theorem ground_in_band (hms : ∀ m ∈ ms, m.rule ∈ standard.rules) (h : Modifier.ground ms r = some x) :
    r.InBand x := by
  unfold Modifier.ground at h
  cases hm : ms.find? (Modifier.grounds r) with
  | none =>
    rw [hm] at h
    exact unwritten_in_band h
  | some m =>
    rw [hm] at h
    obtain ⟨hmem, hcat, e, he, rfl, hedit⟩ := Modifier.edit_of_find?_grounds hm
    simp only [hedit, Option.bind_some] at h
    exact written_in_band m.rule (hms m hmem) hcat e he x h

/-- What yields to a shift is natural. -/
theorem ground_natural (hms : ∀ m ∈ ms, m.rule ∈ standard.rules) (hc : Combination.Compatible ms)
    {a : Modifier} (ha : ms.find? (Modifier.alters r) = some a) (hr : r ≠ .third ∧ r ≠ .seventh) :
    (Modifier.ground ms r).getD r.natural = r.natural := by
  unfold Modifier.ground
  cases hm : ms.find? (Modifier.grounds r) with
  | none => exact natural_of_unwritten ms r
  | some m =>
    obtain ⟨hmem, hcat, e, he, rfl, hedit⟩ := Modifier.edit_of_find?_grounds hm
    have hyields : Combination.Yields e.role m a := by
      have hchain := hc.roles e.role
      rw [Combination.editing_eq orderFree_standard hms hc, hm, ha] at hchain
      exact (List.isChain_cons_cons.1 hchain).1
    have hkind : m.rule.lastKind? e.role = some .add ∨ m.rule.category = .extension ∨
        m.rule.category = .addition := by
      obtain ⟨k, hk⟩ := Rule.exists_lastKind? (Rule.touches_iff.2 ⟨e, he, rfl⟩)
      cases k with
      | add => exact .inl hk
      | replace => exact .inr (hyields.settled (.inl hk))
      | modify => exact .inr (hyields.settled (.inr hk))
      | remove => exact absurd hk hyields.present
    have hwritten := natural_of_written m.rule (hms m hmem) hcat e he hr hkind
    simp [hedit, hwritten]

theorem sounding_in_band (hms : ∀ m ∈ ms, m.rule ∈ standard.rules) (hc : Combination.Compatible ms)
    (h : Modifier.sounding ms r = some x) : r.InBand x := by
  unfold Modifier.sounding at h
  cases ha : ms.find? (Modifier.alters r) with
  | none =>
    rw [ha] at h
    exact ground_in_band hms h
  | some a =>
    obtain ⟨hmem, hcat, e, he, rfl, hedit⟩ := Modifier.edit_of_find?_alters ha
    simp only [ha, hedit, Option.bind_some] at h
    cases e with
    | modify q d =>
      obtain ⟨hr, hshift⟩ := shifted_in_band a.rule (hms a hmem) hcat _ he rfl
      have hnatural : (Modifier.ground ms q).getD q.natural = q.natural := ground_natural hms hc ha hr
      have hx : q.natural + d = x := by
        rw [← hnatural]
        exact Option.some.inj h
      exact hx ▸ hshift d rfl
    | remove q => cases h
    | replace q y => exact ground_in_band hms h
    | add q y => exact ground_in_band hms h

/-- No modifier moves the root. -/
theorem sounding_root (hms : ∀ m ∈ ms, m.rule ∈ standard.rules) :
    Modifier.sounding ms .root = some 0 := by
  have huntouched : ∀ m ∈ ms, m.rule.touches .root = false := fun m hm => root_untouched _ (hms m hm)
  have halters : ms.find? (Modifier.alters .root) = none :=
    List.find?_eq_none.2 fun m hm => by simp [Modifier.alters, huntouched m hm]
  have hgrounds : ms.find? (Modifier.grounds .root) = none :=
    List.find?_eq_none.2 fun m hm => by simp [Modifier.grounds, huntouched m hm]
  unfold Modifier.sounding Modifier.ground
  rw [halters, hgrounds]
  rfl

/-- What is derived from tokens that go together starts on the root and keeps to the bands. -/
theorem derive_in_bands {ts us : List Token} {d : Derivation} (h : standard.validate ts = .ok us)
    (hd : standard.derive ts = .ok d) : d.voicing.get? .root = some 0 ∧
      ∀ r x, d.voicing.get? r = some x → r.InBand x := by
  obtain ⟨ms, hms, hc, -⟩ := Combination.validate_eq_ok.1 h
  have hrules : ∀ m ∈ ms, m.rule ∈ standard.rules := fun m hm => rule_mem_of_modifiers hms hm
  cases hd.symm.trans (derive_of_modifiers hms)
  have hsounding := get?_voicing_standard hrules hc
  refine ⟨(hsounding .root).trans (sounding_root hrules), fun r x hx => ?_⟩
  exact sounding_in_band hrules hc ((hsounding r).symm.trans hx)

end Lexicon

/-- What is shown of a chord on its own root starts there. -/
theorem Display.head_of_root {separator : String} {v : Voicing} {shown : Display}
    (h : ofVoicing separator v = .ok shown) (hroot : v.get? .root = some 0) :
    shown.semitones.head? = some 0 ∧ shown.names.head? = some "P1" := by
  obtain ⟨names, hnames, rfl⟩ := ofVoicing_eq_ok.1 h
  obtain ⟨rest, hrest⟩ := Voicing.exists_toList_cons hroot
  refine ⟨by simp [Voicing.semitones, hrest], ?_⟩
  rw [hrest, mapM_eq_ok_iff, List.forall₂_cons_left_iff] at hnames
  obtain ⟨n, more, hn, -, rfl⟩ := hnames
  cases hn
  rfl

namespace Interpreter

/-- Any chord of the built-in lexicon starts on its root and ascends from there, each role in its band. -/
theorem parse_in_bands (i : Interpreter) (hlx : i.lexicon = .standard) (symbol : String) (c : Chord)
    (h : i.parse symbol = .ok c) :
    c.display.semitones.Pairwise (· < ·) ∧ c.display.semitones.head? = some 0 ∧
      c.display.names.head? = some "P1" ∧
      (∃ p, Note.pitchClass? c.root = some p ∧ c.pitchClasses.head? = some p) ∧
      ∀ r x, c.voicing.get? r = some x → r.lowest ≤ x ∧ x ≤ r.highest := by
  have hsemitones := semitones_of_parse h
  obtain ⟨r, d, shown, hr, hd, hshown, rfl⟩ := exists_reading h
  obtain ⟨suffix, hcut, -, hvalid⟩ := exists_stages hr
  rw [hlx] at hd hvalid
  obtain ⟨hroot, hbands⟩ := Lexicon.derive_in_bands hvalid hd
  obtain ⟨hfirst, hname⟩ := Display.head_of_root hshown hroot
  obtain ⟨p, hp⟩ := Note.exists_pitchClass? (Note.whole_of_cut hcut)
  refine ⟨?_, hfirst, hname, ⟨p, hp, ?_⟩, hbands⟩
  · rw [hsemitones]
    exact Voicing.semitones_ascend hbands
  · obtain ⟨rest, hrest⟩ := Voicing.exists_toList_cons hroot
    have hsum : Semitones.sum p 0 % 12 = p := by
      rw [Semitones.sum_eq (Note.held_add_of_pitchClass? hp (by decide) (by decide)), Int.add_zero,
        Note.pitchClass?_emod hp]
    simp [chord, hp, Voicing.pitchClasses, Voicing.semitones, hrest, hsum]

/-- A thirteenth with its fifth lowered and its ninth raised. -/
theorem parse_in_bands_thirteenth : ∃ c, (ofLexicon .standard).parse "E♭13b5#9" = .ok c ∧
    c.display.semitones.Pairwise (· < ·) ∧ c.display.names.head? = some "P1" ∧
    c.pitchClasses.head? = some 3 ∧
    ∀ r x, c.voicing.get? r = some x → r.lowest ≤ x ∧ x ≤ r.highest := by
  have hts : Lexicon.standard.tokenize "13b5#9" = .ok [⟨13, "13"⟩, ⟨20, "b5"⟩, ⟨23, "#9"⟩] := by
    rw [Lexicon.tokenize_eq_scanWithin]
    decide +kernel
  have hok : Lexicon.standard.validate [⟨13, "13"⟩, ⟨20, "b5"⟩, ⟨23, "#9"⟩] =
      .ok [⟨13, "13"⟩, ⟨20, "b5"⟩, ⟨23, "#9"⟩] := by cbv
  have hread : (ofLexicon .standard).resolve "E♭13b5#9" =
      .ok ⟨"E♭", [⟨13, "13"⟩, ⟨20, "b5"⟩, ⟨23, "#9"⟩]⟩ :=
    resolve_of_stages (by decide) hts hok
  obtain ⟨d, shown, -, -, hc⟩ := exists_parse hread
  obtain ⟨hascend, -, hname, ⟨p, hp, hfirst⟩, hbands⟩ := parse_in_bands _ rfl _ _ hc
  cases (show Note.pitchClass? "E♭" = some 3 by decide).symm.trans hp
  exact ⟨_, hc, hascend, hname, hfirst, hbands⟩

end Interpreter
end ChordSymbol
