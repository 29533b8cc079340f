import ChordSymbol.Rule
import Mathlib.Logic.Function.Basic

/-! Companions and the texts that ask for them. A text names a category, or a spelling within one, or
else it is a spelling itself; no text does two of these, since no name of a category has a dot. -/
namespace ChordSymbol

namespace Category

variable {c d : Category} {s t u : String}

theorem ofName?_eq_some : ofName? s = some c ↔ s = c.name := by
  refine ⟨fun h => (name_of_ofName? h).symm, ?_⟩
  rintro rfl
  exact ofName?_name c

theorem ofName?_eq_none : ofName? s = none ↔ ∀ c : Category, s ≠ c.name := by
  simp only [Option.eq_none_iff_forall_ne_some, ne_eq, ofName?_eq_some]

theorem dot_not_mem_name (c : Category) : '.' ∉ c.name.toList := by cases c <;> decide

/-- The spelling `t` within the category `c`, as a text. -/
def qualify (c : Category) (t : String) : String := c.name ++ "." ++ t

theorem toList_qualify (c : Category) (t : String) :
    (c.qualify t).toList = c.name.toList ++ '.' :: t.toList := by
  simp [qualify]

/-- The first dot of such a text parts category and spelling. -/
theorem cut?_eq_name : Text.cut? '.' s = some (c.name, t) ↔ s = c.qualify t := by
  rw [Text.cut?_eq_some, and_iff_left c.dot_not_mem_name, ← toList_qualify, String.toList_inj]

theorem qualify_ne_name (c d : Category) (t : String) : c.qualify t ≠ d.name := by
  intro h
  have hdot : '.' ∈ (c.qualify t).toList := by simp [toList_qualify]
  exact d.dot_not_mem_name (h ▸ hdot)

theorem qualify_inj : c.qualify t = d.qualify u ↔ c = d ∧ t = u := by
  refine ⟨fun h => ?_, fun ⟨hc, ht⟩ => by rw [hc, ht]⟩
  have hcut := (cut?_eq_name (c := c) (t := t)).2 rfl
  rw [h, cut?_eq_name.2 rfl] at hcut
  obtain ⟨hname, rfl⟩ := Prod.mk.inj (Option.some.inj hcut)
  exact ⟨Option.some.inj ((ofName?_name c).symm.trans (hname ▸ ofName?_name d)), rfl⟩

end Category

namespace Requirement

variable {c : Category} {s t : String}

/-- A text that is neither a category nor a spelling within one. -/
structure Bare (s : String) : Prop where
  category : ∀ c : Category, s ≠ c.name
  qualified : ∀ (c : Category) t, t ≠ "" → s ≠ c.qualify t

theorem text_qualified (c : Category) (t : String) : (qualified c t).text = c.qualify t := rfl

theorem ofText_name (c : Category) : ofText c.name = category c := by
  simp [ofText]

theorem ofText_qualify (c : Category) (ht : t ≠ "") : ofText (c.qualify t) = qualified c t := by
  have hname : Category.ofName? (c.qualify t) = none :=
    Category.ofName?_eq_none.2 fun d => c.qualify_ne_name d t
  unfold ofText
  rw [hname, Category.cut?_eq_name.2 rfl]
  simp [ht]

theorem ofText_bare (h : Bare s) : ofText s = symbol s := by
  unfold ofText
  rw [Category.ofName?_eq_none.2 h.category]
  simp only
  split
  · rfl
  · next front t hcut =>
    split
    · rfl
    · next ht =>
      -- a category in front of the dot would make the text qualified
      have hfront : Category.ofName? front = none := by
        refine Category.ofName?_eq_none.2 fun c hc => h.qualified c t ht ?_
        exact Category.cut?_eq_name.1 (hc ▸ hcut)
      rw [hfront]

/-- What a text can be. -/
theorem text_cases (s : String) :
    (∃ c : Category, s = c.name) ∨ (∃ (c : Category) (t : String), t ≠ "" ∧ s = c.qualify t) ∨ Bare s := by
  by_cases hname : ∃ c : Category, s = c.name
  · exact .inl hname
  · by_cases hqualified : ∃ (c : Category) (t : String), t ≠ "" ∧ s = c.qualify t
    · exact .inr (.inl hqualified)
    · exact .inr (.inr ⟨fun c hc => hname ⟨c, hc⟩, fun c t ht hs => hqualified ⟨c, t, ht, hs⟩⟩)

/-- A text taken apart is put together again. -/
theorem text_ofText (s : String) : (ofText s).text = s := by
  obtain ⟨c, rfl⟩ | ⟨c, t, ht, rfl⟩ | hs := text_cases s
  · rw [ofText_name, text]
  · rw [ofText_qualify c ht, text_qualified]
  · rw [ofText_bare hs, text]

/-- Requirements that come from a text come from their own. -/
theorem ofText_text {q : Requirement} (h : ∃ s, q = ofText s) : ofText q.text = q := by
  obtain ⟨s, rfl⟩ := h
  rw [text_ofText]

/-- The text of a requirement asks for that requirement, unless it ends with the dot behind a category
or is a spelling that reads as something else. -/
def Legible : Requirement → Prop
  | category _ => True
  | qualified _ t => t ≠ ""
  | symbol s => Bare s

theorem bare_qualify_empty (c : Category) : Bare (c.qualify "") where
  category d := c.qualify_ne_name d ""
  qualified := by
    rintro d t ht h
    exact ht (Category.qualify_inj.1 h).2.symm

theorem ofText_text_iff (q : Requirement) : ofText q.text = q ↔ q.Legible := by
  cases q with
  | category c => simp [text, ofText_name, Legible]
  | qualified c t =>
    rw [text_qualified]
    by_cases ht : t = ""
    · subst ht
      simp [ofText_bare (bare_qualify_empty c), Legible]
    · simp [ofText_qualify c ht, Legible, ht]
  | symbol s =>
    rw [text]
    obtain ⟨c, rfl⟩ | ⟨c, t, ht, rfl⟩ | hs := text_cases s
    · have hnot : ¬Bare c.name := fun h => h.category c rfl
      simp [ofText_name, Legible, hnot]
    · have hnot : ¬Bare (c.qualify t) := fun h => h.qualified c t ht rfl
      simp [ofText_qualify c ht, Legible, hnot]
    · simp [ofText_bare hs, Legible, hs]

/-- Every text is the text of what it asks for, so no two texts ask for the same. Of requirements, the
legible ones and no others are what their texts ask for. -/
theorem texts_faithful : (∀ s, (ofText s).text = s) ∧ Function.Injective ofText ∧
    ∀ q, ofText q.text = q ↔ q.Legible := by
  refine ⟨text_ofText, fun s t h => ?_, ofText_text_iff⟩
  rw [← text_ofText s, h, text_ofText]

end Requirement
end ChordSymbol
