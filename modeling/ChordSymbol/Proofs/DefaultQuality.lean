import ChordSymbol.Proofs.Companions
import ChordSymbol.Proofs.Evaluation
import ChordSymbol.Proofs.WrittenOrder

/-! The default quality written out. A chord that names no quality starts from what the default makes of
a bare root; one that names it starts from the bare root, and the default's edits come first. -/
namespace ChordSymbol

namespace Modifier

variable {m : Modifier} {front back : List Modifier}

/-- What comes before all others in order of effect leaves their order as it is. -/
theorem inOrder_eq_cons (hfront : ∀ x ∈ front, m.rule.priority < x.rule.priority)
    (hback : ∀ x ∈ back, m.rule.priority ≤ x.rule.priority) :
    inOrder (front ++ m :: back) = m :: inOrder (front ++ back) := by
  simp only [inOrder_eq_insertionSort]
  induction front with
  | nil =>
    have hle : ∀ x ∈ back.insertionSort fun a b => decide (a.rule.priority ≤ b.rule.priority) = true,
        decide (m.rule.priority ≤ x.rule.priority) = true := by
      intro x hx
      exact decide_eq_true (hback x ((List.perm_insertionSort _ back).mem_iff.1 hx))
    exact orderedInsert_between (List.forall_mem_nil _) hle
  | cons x front ih =>
    obtain ⟨hx, hfront⟩ := List.forall_mem_cons.1 hfront
    have hnot : ¬decide (x.rule.priority ≤ m.rule.priority) = true := by simpa using hx
    rw [List.cons_append, List.insertionSort_cons, ih hfront, List.orderedInsert_cons, if_neg hnot]
    rfl

end Modifier

namespace Lexicon

variable {lx : Lexicon} {t : Token} {m : Modifier} {d : Rule} {rules : List Rule}
  {front back : List Token} {fs bs ms : List Modifier}

/-- One more token with a rule changes nothing about which token is the first without one. -/
theorem modifiers_insert (hm : lx.modifier t = .ok m) (front back : List Token) :
    (∃ e, lx.modifiers (front ++ back) = .error e ∧ lx.modifiers (front ++ t :: back) = .error e) ∨
      ∃ fs bs, lx.modifiers front = .ok fs ∧ lx.modifiers back = .ok bs ∧
        lx.modifiers (front ++ back) = .ok (fs ++ bs) ∧
        lx.modifiers (front ++ t :: back) = .ok (fs ++ m :: bs) := by
  unfold modifiers
  rw [List.mapM_append, List.mapM_append, List.mapM_cons, hm]
  cases front.mapM lx.modifier with
  | error e => exact .inl ⟨e, rfl, rfl⟩
  | ok fs =>
    cases back.mapM lx.modifier with
    | error e => exact .inl ⟨e, rfl, rfl⟩
    | ok bs => exact .inr ⟨fs, bs, rfl, rfl, rfl, rfl⟩

/-- What is true of the rules of tokens is true of their modifiers' rules. -/
theorem forall_rule_iff {ts : List Token} (h : lx.modifiers ts = .ok ms) (p : Rule → Prop) :
    (∀ u ∈ ts, ∀ r, lx.rule? u.rule = some r → p r) ↔ ∀ x ∈ ms, p x.rule := by
  rw [← map_token_of_modifiers h, List.forall_mem_map]
  refine forall₂_congr fun x hx => ?_
  rw [rule?_of_modifiers h hx]
  simp

theorem quality_of_default (hok : ofRules rules = .ok lx) (hd : lx.default? = some d) :
    d.category = .quality := by
  obtain ⟨hw, rfl⟩ := ofRules_iff_wellFormed.1 hok
  have hdefault := List.find?_some hd
  exact (hw.sound d (List.mem_of_find?_eq_some hd)).quality hdefault

/-- Written or not, the default makes the same start for what follows it. -/
theorem applyAll_edits_default (hd : lx.default? = some m.rule) (hm : m.rule.category = .quality)
    (hplain : ∀ x ∈ fs ++ bs, x.rule.category.isQualityClass = false)
    (hfirst : Modifier.inOrder (fs ++ m :: bs) = m :: Modifier.inOrder (fs ++ bs)) :
    (lx.start (fs ++ m :: bs)).applyAll ((Modifier.edits (fs ++ m :: bs)).map (·.2)) =
      (lx.start (fs ++ bs)).applyAll ((Modifier.edits (fs ++ bs)).map (·.2)) := by
  have hnamed : lx.start (fs ++ m :: bs) = .rootOnly := by
    unfold start
    rw [if_pos]
    exact List.any_eq_true.2 ⟨m, by simp, by rw [hm]; rfl⟩
  have hunnamed : lx.start (fs ++ bs) = Voicing.rootOnly.applyAll m.rule.edits := by
    unfold start implied
    rw [if_neg, hd]
    rw [List.any_eq_true]
    rintro ⟨x, hx, hq⟩
    rw [hplain x hx] at hq
    cases hq
  rw [applyAll_edits, applyAll_edits, hfirst, hnamed, hunnamed]
  rfl

theorem derive_default (hm : lx.modifier t = .ok m) (hd : lx.default? = some m.rule)
    (hquality : m.rule.category = .quality)
    (hplain : ∀ u ∈ front ++ back, ∀ r, lx.rule? u.rule = some r → r.category.isQualityClass = false)
    (hfront : ∀ u ∈ front, ∀ r, lx.rule? u.rule = some r → m.rule.priority < r.priority)
    (hback : ∀ u ∈ back, ∀ r, lx.rule? u.rule = some r → m.rule.priority ≤ r.priority) :
    (lx.derive (front ++ t :: back)).map (·.voicing) =
      (lx.derive (front ++ back)).map (·.voicing) := by
  obtain ⟨e, he, he'⟩ | ⟨fs, bs, hfs, hbs, hms, hms'⟩ := modifiers_insert hm front back
  · unfold derive
    rw [he, he']
  · have hfirst : Modifier.inOrder (fs ++ m :: bs) = m :: Modifier.inOrder (fs ++ bs) :=
      Modifier.inOrder_eq_cons ((forall_rule_iff hfs _).1 hfront) ((forall_rule_iff hbs _).1 hback)
    have hvoicing := applyAll_edits_default hd hquality ((forall_rule_iff hms _).1 hplain) hfirst
    rw [derive_of_modifiers hms, derive_of_modifiers hms']
    exact congrArg Except.ok hvoicing

end Lexicon

namespace Combination

open Lexicon (standard)

variable {m x : Modifier} {ms : List Modifier} {d : Rule}

/-- The major quality of the built-in lexicon. -/
def major : Rule :=
  { Rule.basic .quality ["maj", "M", "major"] [.replace .third 4, .add .fifth 7] with
    isDefault := true, caseSensitive := true }

theorem default_standard : standard.default? = some major := rfl

theorem priority_major_le : ∀ u ∈ standard.rules, major.priority ≤ u.priority := by decide

theorem quality_not_excluded : ∀ u ∈ standard.rules, Category.quality ∉ u.excludes := by decide

theorem requires_extension : ∀ u ∈ standard.rules, ∀ q ∈ u.requires, q = .category .extension := by
  decide

/-- Beside the qualities and suspensions, what edits the fifth alters it. -/
theorem alteration_of_touches_fifth : ∀ u ∈ standard.rules, u.category.isQualityClass = false →
    u.touches .fifth = true → u.category = .alteration := by decide

theorem editing_major_cons (hm : m.rule = major) (hrules : ∀ x ∈ ms, x.rule ∈ standard.rules)
    (r : Role) : editing r (m :: ms) =
      if major.touches r = true then m :: editing r ms else editing r ms := by
  have hfirst : Modifier.inOrder (m :: ms) = m :: Modifier.inOrder ms := by
    refine Modifier.inOrder_eq_cons (List.forall_mem_nil _) fun x hx => ?_
    rw [hm]
    exact priority_major_le x.rule (hrules x hx)
  unfold editing
  rw [hfirst, List.filter_cons, hm]

/-- The third of a named quality stays as it is. -/
theorem not_yields_third (hm : m.rule = major) (x : Modifier) : ¬Yields .third m x := by
  intro h
  have hlast : m.rule.lastKind? .third = some .replace := by
    rw [hm]
    rfl
  have hground := h.settled (.inl hlast)
  rw [hm] at hground
  simp [major, Rule.basic] at hground

/-- Its fifth was merely added, so that an alteration may follow. -/
theorem yields_fifth (hm : m.rule = major) (hx : x.rule ∈ standard.rules)
    (hplain : x.rule.category.isQualityClass = false) (ht : x.rule.touches .fifth = true) :
    Yields .fifth m x := by
  have hlast : m.rule.lastKind? .fifth = some .add := by
    rw [hm]
    rfl
  have halter := alteration_of_touches_fifth x.rule hx hplain ht
  exact ⟨halter, by simp [hlast], by simp [hlast],
    fun _ e he _ => Lexicon.orderFree_standard.noAdd x.rule hx halter e he⟩

theorem chain_major_cons (hm : m.rule = major) (hrules : ∀ x ∈ ms, x.rule ∈ standard.rules)
    (hplain : ∀ x ∈ ms, x.rule.category.isQualityClass = false) :
    (∀ r, (editing r (m :: ms)).IsChain (Yields r)) ↔
      (∀ r, (editing r ms).IsChain (Yields r)) ∧ ∀ x ∈ ms, x.rule.touches .third = false := by
  simp only [editing_major_cons hm hrules]
  have hthird : (∀ x ∈ ms, x.rule.touches .third = false) ↔ editing .third ms = [] := by
    simp [List.eq_nil_iff_forall_not_mem, mem_editing]
  rw [hthird]
  constructor
  · intro h
    refine ⟨fun r => ?_, ?_⟩
    · have hr := h r
      split at hr
      · exact hr.tail
      · exact hr
    · have hr := h .third
      rw [if_pos (by decide)] at hr
      cases hed : editing .third ms with
      | nil => rfl
      | cons x rest =>
        rw [hed] at hr
        exact absurd (List.isChain_cons_cons.1 hr).1 (not_yields_third hm x)
  · rintro ⟨h, hnone⟩ r
    split
    · next ht =>
      refine List.isChain_cons.2 ⟨fun x hx => ?_, h r⟩
      obtain ⟨hxm, hxr⟩ := mem_editing.1 (List.mem_of_mem_head? hx)
      cases r with
      | third => rw [hnone] at hx; cases hx
      | fifth => exact yields_fifth hm (hrules x hxm) (hplain x hxm) hxr
      | _ => exact absurd ht (by decide)
    · exact h r

/-- A major quality written out goes together with all that went together without it, unless the third
is edited. -/
theorem compatible_major_cons (hm : m.rule = major) (hrules : ∀ x ∈ ms, x.rule ∈ standard.rules)
    (hplain : ∀ x ∈ ms, x.rule.category.isQualityClass = false) :
    Compatible (m :: ms) ↔ Compatible ms ∧ ∀ x ∈ ms, x.rule.touches .third = false := by
  have hchain := chain_major_cons hm hrules hplain
  constructor
  · intro hc
    obtain ⟨hroles, hthird⟩ := hchain.1 hc.roles
    have hsub : ms.Sublist (m :: ms) := List.sublist_cons_self m ms
    refine ⟨⟨?_, hc.noExclusion.sublist hsub, hroles, ?_⟩, hthird⟩
    · exact (hsub.filter _).length_le.trans hc.oneQuality
    · rintro front x back rfl q hq
      obtain ⟨o, ho, hmet⟩ := hc.provided (m :: front) x back rfl q hq
      rcases List.mem_cons.1 ho with rfl | ho
      · -- what others ask for is an extension, which the quality is not
        rw [requires_extension x.rule (hrules x (by simp)) q hq] at hmet
        simp [Requirement.isMetBy, hm, major, Rule.basic] at hmet
      · exact ⟨o, ho, hmet⟩
  · rintro ⟨hc, hthird⟩
    refine ⟨?_, ?_, hchain.2 ⟨hc.roles, hthird⟩, ?_⟩
    · have hnone : ms.filter (·.rule.category.isQualityClass) = [] :=
        List.filter_eq_nil_iff.2 fun x hx => by simp [hplain x hx]
      rw [List.filter_cons, hnone]
      split <;> simp
    · refine List.pairwise_cons.2 ⟨fun x hx => ⟨by simp [hm, major, Rule.basic], ?_⟩, hc.noExclusion⟩
      rw [hm]
      exact quality_not_excluded x.rule (hrules x hx)
    · intro front x back hsplit q hq
      cases front with
      | nil =>
        cases hsplit
        rw [hm] at hq
        cases hq
      | cons y front =>
        cases hsplit
        obtain ⟨o, ho, hmet⟩ := hc.provided front x back rfl q hq
        exact ⟨o, List.mem_cons_of_mem m ho, hmet⟩

/-- The same, wherever among the others it is written. -/
theorem compatible_major_insert {fs bs : List Modifier} (hm : m.rule = major)
    (hrules : ∀ x ∈ fs ++ bs, x.rule ∈ standard.rules)
    (hplain : ∀ x ∈ fs ++ bs, x.rule.category.isQualityClass = false) :
    Compatible (fs ++ m :: bs) ↔
      Compatible (fs ++ bs) ∧ ∀ x ∈ fs ++ bs, x.rule.touches .third = false := by
  have hmajor : m.rule ∈ standard.rules := by
    rw [hm]
    exact List.mem_cons_self
  have hrules' : ∀ x ∈ m :: (fs ++ bs), x.rule ∈ standard.rules :=
    List.forall_mem_cons.2 ⟨hmajor, hrules⟩
  have p : (fs ++ m :: bs).Perm (m :: (fs ++ bs)) := List.perm_middle
  rw [← compatible_major_cons hm hrules hplain]
  exact ⟨fun hc => hc.perm Lexicon.orderFree_standard (fun x hx => hrules' x (p.mem_iff.1 hx)) p,
    fun hc => hc.perm Lexicon.orderFree_standard hrules' p.symm⟩

/-- Among what goes with a quality, only an omission edits the third. -/
theorem touches_third_iff : ∀ u ∈ standard.rules, u.category.isQualityClass = false →
    (u.touches .third = true ↔ u.symbols = ["no3", "omit3"]) := by decide

theorem accepted_iff {lx : Lexicon} {ts : List Token} : (∃ us, lx.validate ts = .ok us) ↔
    ∃ ms, lx.modifiers ts = .ok ms ∧ Compatible ms := by
  constructor
  · rintro ⟨us, h⟩
    obtain ⟨ms, hms, hc, -⟩ := validate_eq_ok.1 h
    exact ⟨ms, hms, hc⟩
  · rintro ⟨ms, hms, hc⟩
    exact ⟨ts, validate_eq_ok.2 ⟨ms, hms, hc, rfl⟩⟩

/-- Which tokens are accepted with the major quality written among them. -/
theorem validate_major_insert {t : Token} {front back : List Token}
    (ht : standard.modifier t = .ok ⟨t, major⟩)
    (hplain : ∀ u ∈ front ++ back, ∀ r, standard.rule? u.rule = some r →
      r.category.isQualityClass = false) :
    (∃ us, standard.validate (front ++ t :: back) = .ok us) ↔
      (∃ us, standard.validate (front ++ back) = .ok us) ∧
        ∀ u ∈ front ++ back, ∀ r, standard.rule? u.rule = some r → r.touches .third = false := by
  rw [accepted_iff, accepted_iff]
  obtain ⟨e, he, he'⟩ | ⟨fs, bs, -, -, hms, hms'⟩ := Lexicon.modifiers_insert ht front back
  · simp [he, he']
  · have hrules : ∀ x ∈ fs ++ bs, x.rule ∈ standard.rules :=
      fun x hx => Lexicon.rule_mem_of_modifiers hms hx
    have hplain' := (Lexicon.forall_rule_iff hms fun r => r.category.isQualityClass = false).1 hplain
    rw [Lexicon.forall_rule_iff hms fun r => r.touches .third = false]
    simpa [hms, hms'] using compatible_major_insert rfl hrules hplain'

end Combination

namespace Lexicon

/-- The default quality may be written out wherever all before it take effect later and all behind it
take effect no earlier: the voicing is the same. In the built-in lexicon it may be written out anywhere,
and is accepted with all that is accepted without it, save the omission of the third. -/
theorem default_written_out (rules : List Rule) (lx : Lexicon) (hok : ofRules rules = .ok lx) (d : Rule)
    (hd : lx.default? = some d) (t : Token) (ht : lx.rule? t.rule = some d) (front back : List Token)
    (hplain : ∀ u ∈ front ++ back, ∀ r, lx.rule? u.rule = some r →
      r.category.isQualityClass = false) :
    ((∀ u ∈ front, ∀ r, lx.rule? u.rule = some r → d.priority < r.priority) →
      (∀ u ∈ back, ∀ r, lx.rule? u.rule = some r → d.priority ≤ r.priority) →
      (lx.derive (front ++ t :: back)).map (·.voicing) =
        (lx.derive (front ++ back)).map (·.voicing)) ∧
    (lx = standard →
      ((∃ us, lx.validate (front ++ t :: back) = .ok us) ↔
        (∃ us, lx.validate (front ++ back) = .ok us) ∧
          ∀ u ∈ front ++ back, ∀ r, lx.rule? u.rule = some r → r.touches .third = false) ∧
      ∀ r ∈ lx.rules, r.category.isQualityClass = false →
        (r.touches .third = true ↔ r.symbols = ["no3", "omit3"])) := by
  have hm : lx.modifier t = .ok ⟨t, d⟩ := modifier_eq_ok.2 ⟨rfl, ht⟩
  refine ⟨derive_default hm hd (quality_of_default hok hd) hplain, ?_⟩
  rintro rfl
  obtain rfl : Combination.major = d := Option.some.inj (Combination.default_standard.symm.trans hd)
  exact ⟨Combination.validate_major_insert hm hplain, Combination.touches_third_iff⟩

theorem default_written_out_sevenths :
    (standard.derive [⟨9, "7"⟩, ⟨0, "maj"⟩, ⟨24, "#11"⟩]).map (·.voicing) =
        (standard.derive [⟨9, "7"⟩, ⟨24, "#11"⟩]).map (·.voicing) ∧
      (∃ us, standard.validate [⟨9, "7"⟩, ⟨0, "maj"⟩, ⟨24, "#11"⟩] = .ok us) ∧
      (∃ us, standard.validate [⟨9, "7"⟩, ⟨27, "no3"⟩] = .ok us) ∧
      ¬∃ us, standard.validate [⟨9, "7"⟩, ⟨0, "maj"⟩, ⟨27, "no3"⟩] = .ok us := by
  have hokay : standard.validate [⟨9, "7"⟩, ⟨24, "#11"⟩] = .ok [⟨9, "7"⟩, ⟨24, "#11"⟩] := by cbv
  have homit : standard.validate [⟨9, "7"⟩, ⟨27, "no3"⟩] = .ok [⟨9, "7"⟩, ⟨27, "no3"⟩] := by cbv
  obtain ⟨hvoicing, hvalid⟩ := default_written_out standard.rules standard ofRules_standard
    Combination.major rfl ⟨0, "maj"⟩ rfl [⟨9, "7"⟩] [⟨24, "#11"⟩] (by decide)
  obtain ⟨-, hvalid'⟩ := default_written_out standard.rules standard ofRules_standard
    Combination.major rfl ⟨0, "maj"⟩ rfl [⟨9, "7"⟩] [⟨27, "no3"⟩] (by decide)
  refine ⟨hvoicing (by decide) (by decide), (hvalid rfl).1.2 ⟨⟨_, hokay⟩, by decide⟩,
    ⟨_, homit⟩, fun h => ?_⟩
  have hthird := ((hvalid' rfl).1.1 h).2 ⟨27, "no3"⟩ (by simp) _ rfl
  exact absurd hthird (by decide)

end Lexicon
end ChordSymbol
