import ChordSymbol.Proofs.Compatibility

/-! Tokens offered one after the other. Each is kept or refused by what has been kept before it, and a
refused one might as well not have been offered. -/
namespace ChordSymbol.Combination

variable {lx : Lexicon} {kept all : List Modifier} {t : Token} {r : Rule} {front back ts : List Token}
  {e : Refusal}

/-- `t` may join `kept`: the table has its rule, and no kept modifier stands in its way, be it as a second
quality or by an exclusion on either side. -/
structure Admits (lx : Lexicon) (kept : List Modifier) (t : Token) (r : Rule) : Prop where
  rule : lx.rule? t.rule = some r
  tolerated : ∀ p ∈ kept, Tolerates p ⟨t, r⟩

theorem keep_eq_ok_iff_admits : keep lx kept t = .ok all ↔
    ∃ r, Admits lx kept t r ∧ all = kept ++ [⟨t, r⟩] := by
  rw [keep_eq_ok]
  constructor
  · rintro ⟨⟨_, r⟩, hm, htolerated, rfl⟩
    obtain ⟨rfl, hr⟩ := Lexicon.modifier_eq_ok.1 hm
    exact ⟨r, ⟨hr, htolerated⟩, rfl⟩
  · rintro ⟨r, ⟨hr, htolerated⟩, rfl⟩
    exact ⟨⟨t, r⟩, Lexicon.modifier_eq_ok.2 ⟨rfl, hr⟩, htolerated, rfl⟩

theorem not_admits_of_keep (h : keep lx kept t = .error e) (r : Rule) : ¬Admits lx kept t r := by
  intro hr
  cases h.symm.trans (keep_eq_ok_iff_admits.2 ⟨r, hr, rfl⟩)

section Step

variable (ts : List Token)

theorem keepSome_of_ok (h : keep lx kept t = .ok all) :
    keepSome lx kept (t :: ts) = keepSome lx all ts := by
  rw [keepSome, h]

theorem keepSome_of_error (h : keep lx kept t = .error e) :
    keepSome lx kept (t :: ts) = keepSome lx kept ts := by
  rw [keepSome, h]

theorem verdicts_of_ok (h : keep lx kept t = .ok all) :
    verdicts lx kept (t :: ts) = none :: verdicts lx all ts := by
  rw [verdicts, h]

theorem verdicts_of_error (h : keep lx kept t = .error e) :
    verdicts lx kept (t :: ts) = some e :: verdicts lx kept ts := by
  rw [verdicts, h]

end Step

/-! What comes later starts from what has been kept, and from nothing else. -/

theorem keepSome_append (lx : Lexicon) (kept : List Modifier) (front back : List Token) :
    keepSome lx kept (front ++ back) = keepSome lx (keepSome lx kept front) back := by
  induction front generalizing kept with
  | nil => rfl
  | cons t front ih =>
    rw [List.cons_append]
    cases h : keep lx kept t with
    | error e => rw [keepSome_of_error _ h, keepSome_of_error _ h, ih]
    | ok all => rw [keepSome_of_ok _ h, keepSome_of_ok _ h, ih]

theorem verdicts_append (lx : Lexicon) (kept : List Modifier) (front back : List Token) :
    verdicts lx kept (front ++ back) =
      verdicts lx kept front ++ verdicts lx (keepSome lx kept front) back := by
  induction front generalizing kept with
  | nil => rfl
  | cons t front ih =>
    rw [List.cons_append]
    cases h : keep lx kept t with
    | error e =>
      rw [verdicts_of_error _ h, verdicts_of_error _ h, keepSome_of_error _ h, ih, List.cons_append]
    | ok all => rw [verdicts_of_ok _ h, verdicts_of_ok _ h, keepSome_of_ok _ h, ih, List.cons_append]

@[simp] theorem length_verdicts (lx : Lexicon) (kept : List Modifier) (ts : List Token) :
    (verdicts lx kept ts).length = ts.length := by
  induction ts generalizing kept with
  | nil => rfl
  | cons t ts ih =>
    cases h : keep lx kept t with
    | error e => rw [verdicts_of_error _ h, List.length_cons, List.length_cons, ih]
    | ok all => rw [verdicts_of_ok _ h, List.length_cons, List.length_cons, ih]

theorem verdicts_split (front : List Token) (t : Token) (back : List Token) :
    verdicts lx [] (front ++ t :: back) =
      verdicts lx [] front ++ verdicts lx (keepSome lx [] front) (t :: back) :=
  verdicts_append lx [] front (t :: back)

/-- A token that may join is kept behind the others. -/
theorem kept_of_admits (h : Admits lx (keepSome lx [] front) t r) (back : List Token) :
    keepSome lx [] (front ++ [t]) = keepSome lx [] front ++ [⟨t, r⟩] ∧
      (verdicts lx [] (front ++ t :: back))[front.length]? = some none := by
  have hkeep := keep_eq_ok_iff_admits.2 ⟨r, h, rfl⟩
  constructor
  · rw [keepSome_append, keepSome_of_ok _ hkeep]
    rfl
  · rw [verdicts_split, verdicts_of_ok _ hkeep]
    exact getElem?_eq_some_iff_split.2 ⟨_, _, rfl, (length_verdicts lx [] front).symm⟩

/-- A refused token leaves no trace but its refusal. -/
theorem traceless_of_refused (h : keep lx (keepSome lx [] front) t = .error e) (back : List Token) :
    keepSome lx [] (front ++ [t]) = keepSome lx [] front ∧
      (verdicts lx [] (front ++ t :: back))[front.length]? = some (some e) ∧
      keepSome lx [] (front ++ t :: back) = keepSome lx [] (front ++ back) ∧
      (verdicts lx [] (front ++ t :: back)).eraseIdx front.length = verdicts lx [] (front ++ back) := by
  refine ⟨?_, ?_, ?_, ?_⟩
  · rw [keepSome_append, keepSome_of_error _ h]
    rfl
  · rw [verdicts_split, verdicts_of_error _ h]
    exact getElem?_eq_some_iff_split.2 ⟨_, _, rfl, (length_verdicts lx [] front).symm⟩
  · rw [keepSome_append, keepSome_of_error _ h, ← keepSome_append]
  · rw [verdicts_split, verdicts_of_error _ h, ← length_verdicts lx [] front, eraseIdx_split,
      ← verdicts_append]

/-- The tokens that nothing has been said against. -/
def unrefused (ts : List Token) (vs : List (Option Refusal)) : List Token :=
  ((ts.zip vs).filter (·.2.isNone)).map (·.1)

theorem unrefused_sublist {vs : List (Option Refusal)} (h : ts.length ≤ vs.length) :
    (unrefused ts vs).Sublist ts := by
  have hsub : (unrefused ts vs).Sublist ((ts.zip vs).map (·.1)) := List.filter_sublist.map _
  rwa [List.map_fst_zip h] at hsub

theorem map_token_keepSome (lx : Lexicon) (kept : List Modifier) (ts : List Token) :
    (keepSome lx kept ts).map (·.token) =
      kept.map (·.token) ++ unrefused ts (verdicts lx kept ts) := by
  induction ts generalizing kept with
  | nil => simp [keepSome, unrefused]
  | cons t ts ih =>
    cases h : keep lx kept t with
    | error e =>
      rw [keepSome_of_error _ h, verdicts_of_error _ h, ih]
      simp [unrefused]
    | ok all =>
      obtain ⟨r, -, rfl⟩ := keep_eq_ok_iff_admits.1 h
      rw [keepSome_of_ok _ h, verdicts_of_ok _ h, ih]
      simp [unrefused]

theorem keepAll_append (lx : Lexicon) (kept : List Modifier) (front back : List Token) :
    keepAll lx kept (front ++ back) = (keepAll lx kept front).bind (keepAll lx · back) := by
  induction front generalizing kept with
  | nil => rfl
  | cons t front ih =>
    rw [List.cons_append, keepAll, keepAll]
    cases keep lx kept t with
    | error e => rfl
    | ok all => exact ih all

/-- Offered again by themselves, the kept tokens are kept without a refusal. -/
theorem keepAll_kept (lx : Lexicon) (ts : List Token) :
    keepAll lx [] ((keepSome lx [] ts).map (·.token)) = .ok (keepSome lx [] ts) := by
  induction ts using List.reverseRecOn with
  | nil => rfl
  | append_singleton ts t ih =>
    cases h : keep lx (keepSome lx [] ts) t with
    | error e =>
      rw [keepSome_append, keepSome_of_error _ h]
      exact ih
    | ok all =>
      have hall : keepSome lx [] (ts ++ [t]) = all := by
        rw [keepSome_append, keepSome_of_ok _ h]
        rfl
      obtain ⟨r, -, hr⟩ := keep_eq_ok_iff_admits.1 h
      rw [hall, hr, List.map_append, keepAll_append, ih, ← hr]
      change keepAll lx (keepSome lx [] ts) [t] = _
      rw [keepAll, h]
      rfl

theorem pairwise_keepSome (lx : Lexicon) (ts : List Token) :
    (keepSome lx [] ts).Pairwise Tolerates := by
  obtain ⟨ms, -, hms, -, hkept⟩ := keepAll_eq_ok.1 (keepAll_kept lx ts)
  rw [hkept]
  exact hms

/-- To finish is to validate what has been kept. -/
theorem validate_kept (lx : Lexicon) (ts : List Token) :
    lx.validate ((keepSome lx [] ts).map (·.token)) = finish (keepSome lx [] ts) := by
  rw [Lexicon.validate, keepAll_kept]

/-- The end of a validation comes to the tokens themselves, or to one of two kinds of refusal. -/
theorem finish_cases (kept : List Modifier) : finish kept = .ok (kept.map (·.token)) ∨
    (∃ q symbol existing, finish kept = .error (.conflictingRole q symbol existing)) ∨
    ∃ symbol q, finish kept = .error (.missingRequirement symbol q) := by
  cases h : finish kept with
  | ok us =>
    obtain ⟨-, -, rfl⟩ := finish_eq_ok.1 h
    exact .inl rfl
  | error e =>
    rcases finish_eq_error h with hr | hm
    · obtain ⟨q, x, y, -, -, -, -, rfl⟩ := replay_eq_some [] hr
      exact .inr (.inl ⟨q, _, _, rfl⟩)
    · obtain ⟨front, m, back, -, q, -, -, rfl⟩ := missing?_eq_some hm
      exact .inr (.inr ⟨_, q, rfl⟩)

/-- However many tokens are offered and refused, each is kept if and only if it may join those kept before
it, and a refused one changes neither what is kept nor what is said of any other. So the kept ones are
those that nothing was said against, one quality among them at most and no exclusions, and to finish is
to validate them. -/
theorem kept_greedily (lx : Lexicon) :
    (∀ front t back,
      (∃ r, Admits lx (keepSome lx [] front) t r ∧
        keepSome lx [] (front ++ [t]) = keepSome lx [] front ++ [⟨t, r⟩] ∧
        (verdicts lx [] (front ++ t :: back))[front.length]? = some none) ∨
      ((∀ r, ¬Admits lx (keepSome lx [] front) t r) ∧
        keepSome lx [] (front ++ [t]) = keepSome lx [] front ∧
        (∃ e, (verdicts lx [] (front ++ t :: back))[front.length]? = some (some e)) ∧
        keepSome lx [] (front ++ t :: back) = keepSome lx [] (front ++ back) ∧
        (verdicts lx [] (front ++ t :: back)).eraseIdx front.length =
          verdicts lx [] (front ++ back))) ∧
    ∀ ts, (keepSome lx [] ts).map (·.token) = unrefused ts (verdicts lx [] ts) ∧
      ((keepSome lx [] ts).map (·.token)).Sublist ts ∧
      ((keepSome lx [] ts).filter (·.rule.category.isQualityClass)).length ≤ 1 ∧
      ((keepSome lx [] ts).Pairwise fun x y =>
        y.rule.category ∉ x.rule.excludes ∧ x.rule.category ∉ y.rule.excludes) ∧
      finish (keepSome lx [] ts) = lx.validate ((keepSome lx [] ts).map (·.token)) ∧
      (finish (keepSome lx [] ts) = .ok ((keepSome lx [] ts).map (·.token)) ∨
        (∃ q symbol existing,
          finish (keepSome lx [] ts) = .error (.conflictingRole q symbol existing)) ∨
        ∃ symbol q, finish (keepSome lx [] ts) = .error (.missingRequirement symbol q)) := by
  constructor
  · intro front t back
    cases h : keep lx (keepSome lx [] front) t with
    | ok all =>
      obtain ⟨r, hr, -⟩ := keep_eq_ok_iff_admits.1 h
      exact .inl ⟨r, hr, kept_of_admits hr back⟩
    | error e =>
      obtain ⟨hkept, hverdict, hlater, hothers⟩ := traceless_of_refused h back
      exact .inr ⟨not_admits_of_keep h, hkept, ⟨e, hverdict⟩, hlater, hothers⟩
  · intro ts
    have htokens : (keepSome lx [] ts).map (·.token) = unrefused ts (verdicts lx [] ts) :=
      map_token_keepSome lx [] ts
    obtain ⟨hquality, hexclusion⟩ := pairwise_tolerates_iff.1 (pairwise_keepSome lx ts)
    refine ⟨htokens, ?_, hquality, hexclusion, (validate_kept lx ts).symm, finish_cases _⟩
    rw [htokens]
    exact unrefused_sublist (length_verdicts lx [] ts).ge

/-- A power chord is refused beside a seventh, and does not stand in the way of another quality. -/
example : verdicts .standard [] [⟨9, "7"⟩, ⟨6, "5"⟩, ⟨1, "m"⟩, ⟨0, "maj"⟩, ⟨99, "?"⟩] =
    [none, some (.excludedCombination "5" .extension), none,
      some (.conflictingQuality "maj" "m"), some (.ruleTable "?" (.missingRule 99))] := by
  decide

end ChordSymbol.Combination
