import ChordSymbol.Proofs.Compatibility

/-! Who edits a role after whom. Each editor is only held against the next, yet it yields to all that
come later, so a role has three editors at most. -/
namespace ChordSymbol

namespace Rule

variable {u : Rule} {r : Role}

/-- Whether the rule replaces or modifies `r`. -/
def settles (u : Rule) (r : Role) : Bool :=
  u.edits.any fun e => e.role = r && (e.kind = .replace || e.kind = .modify)

theorem settles_iff : u.settles r = true ↔
    ∃ e ∈ u.edits, e.role = r ∧ (e.kind = .replace ∨ e.kind = .modify) := by
  simp [settles]

theorem touches_of_settles (h : u.settles r = true) : u.touches r = true := by
  obtain ⟨e, he, hr, -⟩ := settles_iff.1 h
  exact touches_iff.2 ⟨e, he, hr⟩

/-- A rule that edits no role twice has done with `r` once it has settled it. -/
theorem lastKind?_of_settles (hone : (u.edits.map (·.role)).Nodup) (h : u.settles r = true) :
    u.lastKind? r = some .replace ∨ u.lastKind? r = some .modify := by
  obtain ⟨e, he, her, hk⟩ := settles_iff.1 h
  obtain ⟨k, hlast⟩ := exists_lastKind? (touches_of_settles h)
  obtain ⟨f, hf, hfr, rfl⟩ := exists_of_lastKind? hlast
  have hfe : f = e := List.inj_on_of_nodup_map hone hf he (hfr.trans her.symm)
  rw [hlast, hfe]
  exact hk.imp (congrArg some) (congrArg some)

end Rule

namespace Combination

variable {ms : List Modifier} {r : Role} {x y z w : Modifier}

namespace Yields

/-- An alteration yields only where the last it did was to add. -/
theorem added_of_alteration (h : Yields r x y) (hx : x.rule.touches r = true)
    (ha : x.rule.category = .alteration) : x.rule.lastKind? r = some .add := by
  obtain ⟨k, hk⟩ := Rule.exists_lastKind? hx
  have hground : ¬(x.rule.category = .extension ∨ x.rule.category = .addition) := by simp [ha]
  cases k with
  | add => exact hk
  | replace => exact absurd (h.settled (.inl hk)) hground
  | modify => exact absurd (h.settled (.inr hk)) hground
  | remove => exact absurd hk h.present

theorem not_added (h : Yields r x y) (hx : x.rule.lastKind? r = some .add) :
    y.rule.lastKind? r ≠ some .add := by
  intro hy
  obtain ⟨e, he, her, hk⟩ := Rule.exists_of_lastKind? hy
  exact h.added hx e he her hk

/-- What yields to an editor of the role yields to whatever that one yields to. -/
theorem trans (hxy : Yields r x y) (hyz : Yields r y z) (hy : y.rule.touches r = true) :
    Yields r x z where
  alteration := hyz.alteration
  present := hxy.present
  settled := hxy.settled
  added := fun hx => absurd (hyz.added_of_alteration hy hxy.alteration) (hxy.not_added hx)

theorem rule_ne (h : Yields r x y) (hx : x.rule.touches r = true) : x.rule ≠ y.rule := by
  intro heq
  have hadd := h.added_of_alteration hx (heq ▸ h.alteration)
  exact h.not_added hadd (heq ▸ hadd)

/-- What two editors of the role have yielded to yields to none. -/
theorem last (hxy : Yields r x y) (hyz : Yields r y z) (hy : y.rule.touches r = true)
    (hz : z.rule.touches r = true) : ¬Yields r z w := by
  intro hzw
  have hadd := hyz.added_of_alteration hy hxy.alteration
  exact hyz.not_added hadd (hzw.added_of_alteration hz hyz.alteration)

end Yields

/-- Along a role every modifier yields to all after it. -/
theorem editing_pairwise (hc : Compatible ms) (r : Role) : (editing r ms).Pairwise (Yields r) := by
  let Cedes : Modifier → Modifier → Prop := fun x y => y.rule.touches r = true ∧ Yields r x y
  have trans : Trans Cedes Cedes Cedes := ⟨fun hxy hyz => ⟨hyz.1, hxy.2.trans hyz.2 hxy.1⟩⟩
  have hchain : (editing r ms).IsChain Cedes :=
    (hc.roles r).imp_of_mem_imp fun _ _ _ hy hxy => ⟨(mem_editing.1 hy).2, hxy⟩
  exact hchain.pairwise.imp And.right

theorem length_editing_le (hc : Compatible ms) (r : Role) : (editing r ms).length ≤ 3 := by
  have hpair := editing_pairwise hc r
  have htouch : ∀ m ∈ editing r ms, m.rule.touches r = true := fun m hm => (mem_editing.1 hm).2
  generalize editing r ms = editors at hpair htouch
  rcases editors with _ | ⟨x, _ | ⟨y, _ | ⟨z, _ | ⟨w, rest⟩⟩⟩⟩
  case cons.cons.cons.cons =>
    obtain ⟨hx, hpair⟩ := List.pairwise_cons.1 hpair
    obtain ⟨hy, hpair⟩ := List.pairwise_cons.1 hpair
    obtain ⟨hz, -⟩ := List.pairwise_cons.1 hpair
    have hlast := (hx y (by simp)).last (w := w) (hy z (by simp))
    exact absurd (hz w (by simp)) (hlast (htouch y (by simp)) (htouch z (by simp)))
  all_goals simp

theorem alteration_of_mem_tail (hc : Compatible ms) {m : Modifier}
    (hm : m ∈ (editing r ms).tail) : m.rule.category = .alteration := by
  have hpair := editing_pairwise hc r
  cases hed : editing r ms with
  | nil => simp [hed] at hm
  | cons x rest =>
    rw [hed] at hpair hm
    exact ((List.pairwise_cons.1 hpair).1 m hm).alteration

section Settling

variable (hc : Compatible ms) (hone : ∀ m ∈ ms, (m.rule.edits.map (·.role)).Nodup)
include hc hone

theorem length_filter_settles_le (r : Role) :
    ((editing r ms).filter (·.rule.settles r)).length ≤ 2 := by
  have hpair := (editing_pairwise hc r).filter (·.rule.settles r)
  have hmem : ∀ m ∈ (editing r ms).filter (·.rule.settles r), m ∈ ms ∧ m.rule.settles r = true := by
    intro m hm
    obtain ⟨hm, hs⟩ := List.mem_filter.1 hm
    exact ⟨(mem_editing.1 hm).1, hs⟩
  generalize (editing r ms).filter (·.rule.settles r) = settlers at hpair hmem
  rcases settlers with _ | ⟨x, _ | ⟨y, _ | ⟨z, rest⟩⟩⟩
  case cons.cons.cons =>
    obtain ⟨hx, hpair⟩ := List.pairwise_cons.1 hpair
    obtain ⟨hy, -⟩ := List.pairwise_cons.1 hpair
    obtain ⟨hym, hys⟩ := hmem y (by simp)
    have hadd := (hy z (by simp)).added_of_alteration (Rule.touches_of_settles hys)
      (hx y (by simp)).alteration
    have hlast := Rule.lastKind?_of_settles (hone y hym) hys
    simp [hadd] at hlast
  all_goals simp

theorem categories_of_settles (h : (editing r ms).filter (·.rule.settles r) = [x, y]) :
    (x.rule.category = .extension ∨ x.rule.category = .addition) ∧
      y.rule.category = .alteration := by
  have hpair := (editing_pairwise hc r).filter (·.rule.settles r)
  have hx : x ∈ (editing r ms).filter (·.rule.settles r) := by simp [h]
  rw [h, List.pairwise_pair] at hpair
  obtain ⟨hx, hs⟩ := List.mem_filter.1 hx
  have hlast := Rule.lastKind?_of_settles (hone x (mem_editing.1 hx).1) hs
  exact ⟨hpair.settled hlast, hpair.alteration⟩

end Settling

/-- A role has three editors at most, and all but the first are alterations. Where no rule edits a role
twice, two of them at most settle it: an extension or an addition, and then an alteration. -/
theorem editors_of_validate (lx : Lexicon) (ts us : List Token) (h : lx.validate ts = .ok us) :
    ∃ ms, lx.modifiers ts = .ok ms ∧
      (ms.filter (·.rule.category.isQualityClass)).length ≤ 1 ∧
      (∀ r, (editing r ms).length ≤ 3 ∧
        ∀ m ∈ (editing r ms).tail, m.rule.category = .alteration) ∧
      ((∀ u ∈ lx.rules, (u.edits.map (·.role)).Nodup) → ∀ r,
        ((editing r ms).filter (·.rule.settles r)).length ≤ 2 ∧
        ∀ x y, (editing r ms).filter (·.rule.settles r) = [x, y] →
          (x.rule.category = .extension ∨ x.rule.category = .addition) ∧
            y.rule.category = .alteration) := by
  obtain ⟨ms, hms, hc, -⟩ := validate_eq_ok.1 h
  refine ⟨ms, hms, hc.oneQuality, fun r => ?_, fun hone r => ?_⟩
  · exact ⟨length_editing_le hc r, fun m hm => alteration_of_mem_tail hc hm⟩
  · have hone' : ∀ m ∈ ms, (m.rule.edits.map (·.role)).Nodup :=
      fun m hm => hone m.rule (Lexicon.rule_mem_of_modifiers hms hm)
    exact ⟨length_filter_settles_le hc hone' r, fun x y => categories_of_settles hc hone'⟩

/-- Three ways to a ninth: an extension writes it, an alteration adds it anew, another shifts it. -/
def ninths : Lexicon := ⟨[
  Rule.basic .extension ["9"] [.replace .ninth 14],
  Rule.basic .alteration ["alt"] [.add .ninth 13],
  Rule.basic .alteration ["#9"] [.modify .ninth 1]]⟩

/-- All three together, the ninth being settled first by the extension and last by an alteration. -/
theorem editors_of_validate_ninths :
    ninths.validate [⟨1, "alt"⟩, ⟨2, "#9"⟩, ⟨0, "9"⟩] = .ok [⟨1, "alt"⟩, ⟨2, "#9"⟩, ⟨0, "9"⟩] ∧
    (∀ u ∈ ninths.rules, (u.edits.map (·.role)).Nodup) ∧
    ∃ ms, ninths.modifiers [⟨1, "alt"⟩, ⟨2, "#9"⟩, ⟨0, "9"⟩] = .ok ms ∧
      (editing .ninth ms).map (·.token.symbol) = ["9", "alt", "#9"] ∧
      (∀ m ∈ (editing .ninth ms).tail, m.rule.category = .alteration) ∧
      ((editing .ninth ms).filter (·.rule.settles .ninth)).length ≤ 2 := by
  have hok : ninths.validate [⟨1, "alt"⟩, ⟨2, "#9"⟩, ⟨0, "9"⟩] =
      .ok [⟨1, "alt"⟩, ⟨2, "#9"⟩, ⟨0, "9"⟩] := by cbv
  have hone : ∀ u ∈ ninths.rules, (u.edits.map (·.role)).Nodup := by decide
  obtain ⟨ms, hms, -, hrole, hsettle⟩ := editors_of_validate ninths _ _ hok
  refine ⟨hok, hone, ms, hms, ?_, (hrole .ninth).2, (hsettle hone .ninth).1⟩
  cases hms
  cbv

end Combination
end ChordSymbol
