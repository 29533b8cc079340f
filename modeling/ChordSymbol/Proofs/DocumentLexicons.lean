import ChordSymbol.Proofs.HeldNumbers
import ChordSymbol.Proofs.ReadBack

/-! Lexicons that are read from documents. A reader takes in no number that is not held, so the chords of
any lexicon there is have tones that are held, and a lexicon that was read and is written out is read as
the same again. -/
namespace ChordSymbol

open Document

namespace Document

theorem exists_of_forall₂ {α β : Type} {R : α → β → Prop} {as : List α} {bs : List β} {b : β}
    (h : List.Forall₂ R as bs) (hb : b ∈ bs) : ∃ a ∈ as, R a b := by
  induction h with
  | nil => cases hb
  | cons hab _ ih =>
    rcases List.mem_cons.1 hb with rfl | hb
    · exact ⟨_, List.mem_cons_self, hab⟩
    · obtain ⟨a, ha, hR⟩ := ih hb
      exact ⟨a, List.mem_cons_of_mem _ ha, hR⟩

theorem mapM_eq_some_iff {α β : Type} {f : α → Option β} {as : List α} {bs : List β} :
    as.mapM f = some bs ↔ List.Forall₂ (fun a b => f a = some b) as bs := by
  induction as generalizing bs with
  | nil => simp [eq_comm]
  | cons a as ih =>
    simp only [List.mapM_cons, List.forall₂_cons_left_iff, Option.bind_eq_bind,
      Option.bind_eq_some_iff, ih, exists_and_left]
    simp only [Option.pure_def, Option.some_inj, eq_comm]

theorem exists_of_list? {α : Type} {f : Node → Option α} {n : Node} {xs : List α} {x : α}
    (h : n.list? f = some xs) (hx : x ∈ xs) : ∃ m, f m = some x := by
  obtain ⟨ns, -, hns⟩ := Option.bind_eq_some_iff.1 h
  obtain ⟨m, -, hm⟩ := exists_of_forall₂ (mapM_eq_some_iff.1 hns) hx
  exact ⟨m, hm⟩

section Entries

variable {κ ν α : Type} [DecidableEq κ] {key : κ} {f : ν → Option α} {es : List (κ × ν)} {x : α}

theorem exists_of_required? (h : required? key f es = some x) : ∃ v, f v = some x := by
  obtain ⟨found, -, hx⟩ := Option.bind_eq_some_iff.1 h
  obtain ⟨v, -, hv⟩ := Option.bind_eq_some_iff.1 hx
  exact ⟨v, hv⟩

theorem eq_or_exists_of_withDefault? {fallback : α} (h : withDefault? key f fallback es = some x) :
    x = fallback ∨ ∃ v, f v = some x := by
  obtain ⟨found, -, hx⟩ := Option.bind_eq_some_iff.1 h
  cases found with
  | none =>
    cases hx
    exact .inl rfl
  | some v => exact .inr ⟨v, hx⟩

end Entries

theorem exists_of_optional? {α : Type} {key : String} {f : Node → Option α}
    {es : List (String × Node)} {x : α} (h : optional? key f es = some (some x)) :
    ∃ n, f n = some x := by
  obtain hnone | ⟨n, hn⟩ := eq_or_exists_of_withDefault? h
  · cases hnone
  · unfold Node.optional at hn
    split at hn
    · cases hn
    · obtain ⟨y, hy, heq⟩ := Option.map_eq_some_iff.1 hn
      cases heq
      exact ⟨n, hy⟩

/-- An item of a list that may be missing. -/
theorem exists_of_withDefault?_list? {α : Type} {key : String} {f : Node → Option α}
    {es : List (String × Node)} {xs : List α} {x : α}
    (h : withDefault? key (Node.list? f) [] es = some xs) (hx : x ∈ xs) : ∃ n, f n = some x := by
  obtain rfl | ⟨n, hn⟩ := eq_or_exists_of_withDefault? h
  · cases hx
  · exact exists_of_list? hn hx

end Document

theorem Category.priority_le (c : Category) : c.priority ≤ 255 := by cases c <;> decide

namespace Edit

variable {e : Edit}

theorem held_of_amountOfValue? {v : Value} {x : Int} (h : amountOfValue? v = some x) :
    Semitones.Held x :=
  of_decide_eq_true (Option.filter_eq_some_iff.1 h).2

theorem held_of_ofParts? {kind : String} {role : Option Role} {amount : Option Int}
    (h : ofParts? kind role amount = some e) (hamount : ∀ x, amount = some x → Semitones.Held x) :
    e.Held := by
  unfold ofParts? at h
  split at h
  iterate 3
    obtain ⟨r, -, h⟩ := Option.bind_eq_some_iff.1 h
    obtain ⟨x, hx, h⟩ := Option.bind_eq_some_iff.1 h
    cases h
    exact fun y hy => Option.some.inj hy ▸ hamount x hx
  · obtain ⟨r, -, rfl⟩ := Option.map_eq_some_iff.1 h
    exact fun x hx => nomatch hx
  · cases h

theorem held_of_ofValue? {v : Value} (h : ofValue? v = some e) : e.Held := by
  unfold ofValue? at h
  split at h
  · obtain ⟨r, -, rfl⟩ := Option.map_eq_some_iff.1 h
    exact fun x hx => nomatch hx
  · obtain ⟨-, -, hparts⟩ := Option.bind_eq_some_iff.1 h
    exact held_of_ofParts? hparts fun x hx => held_of_amountOfValue? hx
  · obtain ⟨fields, -, h⟩ := Option.bind_eq_some_iff.1 h
    obtain ⟨kind, -, hparts⟩ := Option.bind_eq_some_iff.1 h
    refine held_of_ofParts? hparts fun x hx => ?_
    obtain ⟨v, hv⟩ := exists_of_required? hx
    exact held_of_amountOfValue? hv
  · cases h

theorem held_of_ofNode? {levels : Nat} {n : Node} (h : ofNode? levels n = some e) : e.Held := by
  obtain ⟨v, -, hv⟩ := Option.bind_eq_some_iff.1 h
  exact held_of_ofValue? hv

end Edit

namespace RuleEntry

variable {e : RuleEntry} {r : Rule}

/-- What a reader has made sure of in an entry. -/
structure Fits (e : RuleEntry) : Prop where
  edit : ∀ x, e.edit = some x → x.Held
  edits : ∀ x ∈ e.edits, x.Held
  priority : ∀ n, e.priority = some n → n ≤ 255
  requires : ∀ q ∈ e.requires, ∃ s, q = .ofText s

theorem fits_of_ofNode? {n : Node} (h : ofNode? n = some e) : e.Fits := by
  simp only [ofNode?, Option.bind_eq_bind, Option.bind_eq_some_iff] at h
  obtain ⟨es, -, symbols, -, category, -, edit, hedit, edits, hedits, priority, hpriority, requires,
    hrequires, excludes, -, isDefault, -, caseSensitive, -, heq⟩ := h
  cases heq
  refine ⟨?_, fun x hx => ?_, ?_, fun q hq => ?_⟩
  · rintro x rfl
    obtain ⟨m, hm⟩ := exists_of_optional? hedit
    exact Edit.held_of_ofNode? hm
  · obtain ⟨m, hm⟩ := exists_of_withDefault?_list? hedits hx
    exact Edit.held_of_ofNode? hm
  · rintro k rfl
    obtain ⟨m, hm⟩ := exists_of_optional? hpriority
    exact of_decide_eq_true (Option.filter_eq_some_iff.1 hm).2
  · obtain ⟨m, hm⟩ := exists_of_withDefault?_list? hrequires hq
    obtain ⟨s, -, rfl⟩ := Option.map_eq_some_iff.1 hm
    exact ⟨s, rfl⟩

theorem Fits.rule (he : e.Fits) (h : e.rule = .ok r) :
    r.Fits ∧ ∀ q ∈ r.requires, ∃ s, q = .ofText s := by
  unfold RuleEntry.rule at h
  split at h
  · cases h
  · cases h
    refine ⟨⟨?_, fun x hx => ?_⟩, he.requires⟩
    · show e.priority.getD e.category.priority ≤ 255
      cases hpriority : e.priority with
      | none => exact e.category.priority_le
      | some n => exact he.priority n hpriority
    · split at hx
      · next edit hedit =>
        cases List.mem_singleton.1 hx
        exact he.edit _ hedit
      · exact he.edits x hx

end RuleEntry

namespace Lexicon

variable {n : Node} {lx : Lexicon} {source : String}

theorem fits_of_entriesOfNode? {entries : List RuleEntry} (h : entriesOfNode? n = some entries) :
    ∀ e ∈ entries, e.Fits := by
  intro e he
  obtain ⟨es, -, hentries⟩ := Option.bind_eq_some_iff.1 h
  obtain ⟨m, hm⟩ := exists_of_withDefault?_list? hentries he
  exact RuleEntry.fits_of_ofNode? hm

/-- What is read is an admitted table. Its rules fit, and their requirements can be told by texts. -/
theorem fits_of_ofNode (h : ofNode n = .ok lx) : ofRules lx.rules = .ok lx ∧
    ∀ r ∈ lx.rules, r.Fits ∧ ∀ q ∈ r.requires, ∃ s, q = .ofText s := by
  unfold ofNode at h
  cases hentries : entriesOfNode? n with
  | none =>
    rw [hentries] at h
    cases h
  | some entries =>
    cases hrules : entries.mapM (·.rule) with
    | error e =>
      simp only [hentries, hrules] at h
      cases h
    | ok rules =>
      simp only [hentries, hrules] at h
      replace h : ofRules rules = .ok lx := h
      obtain ⟨-, rfl⟩ := ofRules_iff_wellFormed.1 h
      refine ⟨h, fun r hr => ?_⟩
      obtain ⟨e, he, her⟩ := exists_of_forall₂ (mapM_eq_ok_iff.1 hrules) hr
      exact (fits_of_entriesOfNode? hentries e he).rule her

/-- The rules of a document carry only what is held. -/
theorem held_of_ofNode (h : ofNode n = .ok lx) : lx.Held :=
  fun r hr => ((fits_of_ofNode h).2 r hr).1.edits

theorem held_of_ofDocument (h : ofDocument source = .ok lx) : lx.Held := by
  unfold ofDocument at h
  split at h
  · cases h
  · exact held_of_ofNode h

/-- A lexicon that was read from a document is read as the same from the one that it is written to. -/
theorem ofNode_toJson_of_ofNode (h : ofNode n = .ok lx) :
    ofNode (Node.ofJson lx.toJson) = .ok lx := by
  obtain ⟨hok, hrules⟩ := fits_of_ofNode h
  have hread := ofNode_toJson (fun r hr => (hrules r hr).1) fun r hr => (hrules r hr).2
  exact hread.trans hok

end Lexicon
end ChordSymbol
