import ChordSymbol.Text.Lowercase

/-! Two notions of letter case. Texts that differ in the case of ASCII letters alone are lowercased to
the same text, since an ASCII letter counts as a letter with case however it is written. -/
namespace ChordSymbol.Text

theorem toLower_cases (c : Char) : c.toLower = c ∨ ∃ n < 26, c = Char.ofNat (65 + n) := by
  by_cases h : 65 ≤ c.toNat ∧ c.toNat ≤ 90
  · refine .inr ⟨c.toNat - 65, by omega, ?_⟩
    rw [Nat.add_sub_cancel' h.1, Char.ofNat_toNat]
  · refine .inl ?_
    unfold Char.toLower
    rw [dif_neg]
    exact fun hc => h ⟨hc.1, hc.2⟩

/-- What is the same for both cases of the 26 letters is the same for both cases of any character. -/
theorem apply_toLower {α : Type} (f : Char → α)
    (h : ∀ n < 26, f (Char.ofNat (65 + n)).toLower = f (Char.ofNat (65 + n))) (c : Char) :
    f c.toLower = f c := by
  rcases toLower_cases c with hc | ⟨n, hn, rfl⟩
  · rw [hc]
  · exact h n hn

theorem smallLetter_toLower (c : Char) : smallLetter c.toLower = smallLetter c :=
  apply_toLower smallLetter (by decide +kernel) c

theorem isCased_toLower (c : Char) : isCased c.toLower = isCased c :=
  apply_toLower isCased (by decide +kernel) c

theorem isCaseIgnorable_toLower (c : Char) : isCaseIgnorable c.toLower = isCaseIgnorable c :=
  apply_toLower isCaseIgnorable (by decide +kernel) c

theorem startsCased_map_toLower (cs : List Char) :
    startsCased (cs.map Char.toLower) = startsCased cs := by
  have hp : isCaseIgnorable ∘ Char.toLower = isCaseIgnorable := funext isCaseIgnorable_toLower
  unfold startsCased
  rw [List.dropWhile_map, hp]
  cases cs.dropWhile isCaseIgnorable with
  | nil => rfl
  | cons c rest => exact isCased_toLower c

theorem lowercaseAt_map_toLower (before : List Char) (c : Char) (after : List Char) :
    lowercaseAt (before.map Char.toLower) c.toLower (after.map Char.toLower) =
      lowercaseAt before c after := by
  have hsigma : (c.toLower = 'Σ') = (c = 'Σ') := apply_toLower (· = 'Σ') (by simp; decide) c
  have hdotted : (c.toLower = 'İ') = (c = 'İ') := apply_toLower (· = 'İ') (by simp; decide) c
  unfold lowercaseAt
  simp only [hsigma, hdotted, startsCased_map_toLower, smallLetter_toLower]

theorem lowercaseFrom_map_toLower (before cs : List Char) :
    lowercaseFrom (before.map Char.toLower) (cs.map Char.toLower) = lowercaseFrom before cs := by
  induction cs generalizing before with
  | nil => rfl
  | cons c cs ih =>
    have hcs := ih (c :: before)
    rw [List.map_cons] at hcs
    rw [List.map_cons, lowercaseFrom, lowercaseFrom, lowercaseAt_map_toLower, hcs]

theorem lowercase_eq_of_map_toLower {s t : String}
    (h : s.toList.map Char.toLower = t.toList.map Char.toLower) : lowercase s = lowercase t := by
  unfold lowercase
  rw [← lowercaseFrom_map_toLower [] s.toList, h, lowercaseFrom_map_toLower [] t.toList]

theorem isAlpha_toLower (c : Char) : c.toLower.isAlpha = c.isAlpha :=
  apply_toLower Char.isAlpha (by decide +kernel) c

theorem toLower_eq_self {c : Char} (h : c.isAlpha = false) : c.toLower = c := by
  rcases toLower_cases c with hc | ⟨n, hn, rfl⟩
  · exact hc
  · have halpha : ∀ n < 26, (Char.ofNat (65 + n)).isAlpha = true := by decide +kernel
    rw [halpha n hn] at h
    cases h

theorem eq_of_toLower_eq {c d : Char} (h : c.toLower = d.toLower) (hd : d.isAlpha = false) :
    c = d := by
  have hc : c.isAlpha = false := by rw [← isAlpha_toLower c, h, isAlpha_toLower, hd]
  rw [← toLower_eq_self hc, h, toLower_eq_self hd]

/-- A text without ASCII letters is the same in either case. -/
theorem eq_of_map_toLower {v w : List Char} (h : v.map Char.toLower = w.map Char.toLower)
    (hw : ∀ c ∈ w, c.isAlpha = false) : v = w := by
  induction w generalizing v with
  | nil => simpa using h
  | cons d w ih =>
    obtain ⟨hd, hw⟩ := List.forall_mem_cons.1 hw
    cases v with
    | nil => simp at h
    | cons c v =>
      simp only [List.map_cons, List.cons.injEq] at h
      rw [eq_of_toLower_eq h.1 hd, ih h.2 hw]

end ChordSymbol.Text
