import ChordSymbol.Lexicon.Admission
import ChordSymbol.Lexicon.Standard
import ChordSymbol.Proofs.Compatibility

/-! The tables that are lexicons, told without an order of checks: no rule is wrong by itself, one rule
at most is the default, no two spellings share a place, and all companions can be had. -/
namespace ChordSymbol

/-- A rule that is not wrong by itself. -/
structure Rule.Sound (r : Rule) : Prop where
  symbols : r.symbols ≠ []
  edits : r.edits ≠ []
  symbol : ∀ s ∈ r.symbols, s ≠ ""
  quality : r.isDefault = true → r.category = .quality

/-- Some of `others` is the companion asked for, under one of its own spellings. -/
structure Requirement.Provided (others : List Rule) (q : Requirement) : Prop where
  undotted : ∀ s, q = .symbol s → '.' ∉ s.toList
  met : ∃ o ∈ others, ∃ s ∈ o.symbols, q.isMetBy o s = true

namespace Lexicon

/-- Spellings that one table may have. -/
def Taken.Apart (t u : Taken) : Prop := Text.lowercase t.symbol = Text.lowercase u.symbol →
  t.symbol ≠ u.symbol ∧ t.caseSensitive = true ∧ u.caseSensitive = true

/-- Every spelling of a table, in its order. -/
def allTaken (rules : List Rule) : List Taken := rules.flatMap fun r => taken r r.symbols

structure WellFormed (rules : List Rule) : Prop where
  sound : ∀ r ∈ rules, r.Sound
  oneDefault : rules.Pairwise fun r u => ¬(r.isDefault = true ∧ u.isDefault = true)
  apart : (allTaken rules).Pairwise Taken.Apart
  provided : ∀ front r back, rules = front ++ r :: back →
    ∀ q ∈ r.requires, q.Provided (front ++ back)

variable {rules others : List Rule} {lx : Lexicon} {r : Rule} {q : Requirement} {before : List Taken}
  {existing : Option String} {symbols : List String}

theorem Taken.Apart.symm {t u : Taken} (h : t.Apart u) : u.Apart t := by
  intro heq
  obtain ⟨hne, ht, hu⟩ := h heq.symm
  exact ⟨hne.symm, hu, ht⟩

theorem clashesWith_eq_false (t : Taken) (r : Rule) (s : String) :
    t.clashesWith r s = false ↔ t.Apart ⟨s, r.symbol, r.caseSensitive⟩ := by
  by_cases h : Text.lowercase t.symbol = Text.lowercase s
  · simp [Taken.clashesWith, Taken.Apart, h, and_comm, and_assoc]
  · simp [Taken.clashesWith, Taken.Apart, h]

/-- One step: the spelling is held against all that are in the table. -/
theorem symbolDefect?_cons_eq_none {s : String} : symbolDefect? r before (s :: symbols) = none ↔
    s ≠ "" ∧ (∀ t ∈ before, t.Apart ⟨s, r.symbol, r.caseSensitive⟩) ∧
      symbolDefect? r (before ++ taken r [s]) symbols = none := by
  rw [symbolDefect?]
  by_cases hs : s = ""
  · simp [hs]
  · simp only [if_neg hs, ← clashesWith_eq_false]
    cases hf : before.find? (·.clashesWith r s) with
    | some t =>
      have ht := List.find?_some hf
      simp only [reduceCtorEq, false_iff, not_and]
      intro _ hall
      simp [hall t (List.mem_of_find?_eq_some hf)] at ht
    | none =>
      have hall : ∀ t ∈ before, t.clashesWith r s = false := by simpa using List.find?_eq_none.1 hf
      simp only [hs, not_false_eq_true, ne_eq, true_and, iff_and_self]
      exact fun _ => hall

theorem symbolDefect?_eq_none (hb : before.Pairwise Taken.Apart) :
    symbolDefect? r before symbols = none ↔
      (∀ s ∈ symbols, s ≠ "") ∧ (before ++ taken r symbols).Pairwise Taken.Apart := by
  induction symbols generalizing before with
  | nil => simp [symbolDefect?, taken, hb]
  | cons s symbols ih =>
    have happ : before ++ taken r (s :: symbols) = (before ++ taken r [s]) ++ taken r symbols := by
      simp [taken]
    have hone : (before ++ taken r [s]).Pairwise Taken.Apart ↔
        ∀ t ∈ before, t.Apart ⟨s, r.symbol, r.caseSensitive⟩ := by
      simp [taken, List.pairwise_append, hb]
    rw [symbolDefect?_cons_eq_none, ← hone, List.forall_mem_cons, happ]
    constructor
    · rintro ⟨hs, hbs, hsymbols⟩
      obtain ⟨hne, hall⟩ := (ih hbs).1 hsymbols
      exact ⟨⟨hs, hne⟩, hall⟩
    · rintro ⟨⟨hs, hne⟩, hall⟩
      have hbs := (List.pairwise_append.1 hall).1
      exact ⟨hs, hbs, (ih hbs).2 ⟨hne, hall⟩⟩

theorem defaultDefect?_eq_none : defaultDefect? r existing = none ↔
    (r.isDefault = true → r.category = .quality) ∧ (existing.isSome = true → r.isDefault = false) := by
  cases hr : r.isDefault with
  | false => simp [defaultDefect?, hr]
  | true =>
    cases existing with
    | some d => simp [defaultDefect?, hr]
    | none => simp [defaultDefect?, hr]

theorem ruleDefect?_eq_none (hb : before.Pairwise Taken.Apart) :
    ruleDefect? before existing r = none ↔ r.Sound ∧
      (existing.isSome = true → r.isDefault = false) ∧
      (before ++ taken r r.symbols).Pairwise Taken.Apart := by
  unfold ruleDefect?
  by_cases hsymbols : r.symbols = []
  · simp only [if_pos hsymbols, reduceCtorEq, false_iff, not_and]
    exact fun h => absurd hsymbols h.symbols
  by_cases hedits : r.edits = []
  · simp only [if_neg hsymbols, if_pos hedits, reduceCtorEq, false_iff, not_and]
    exact fun h => absurd hedits h.edits
  simp only [if_neg hsymbols, if_neg hedits]
  cases hd : defaultDefect? r existing with
  | some d =>
    have hsome : defaultDefect? r existing ≠ none := by simp [hd]
    have hno := mt defaultDefect?_eq_none.2 hsome
    simp only [reduceCtorEq, false_iff]
    exact fun h => hno ⟨h.1.quality, h.2.1⟩
  | none =>
    obtain ⟨hquality, hexisting⟩ := defaultDefect?_eq_none.1 hd
    simp only [symbolDefect?_eq_none hb]
    constructor
    · rintro ⟨hne, hall⟩
      exact ⟨⟨hsymbols, hedits, hne, hquality⟩, hexisting, hall⟩
    · rintro ⟨hsound, -, hall⟩
      exact ⟨hsound.symbol, hall⟩

/-- The run: what is in the table so far stays apart from all that comes. -/
theorem rulesDefect?_eq_none (hb : before.Pairwise Taken.Apart) :
    rulesDefect? before existing rules = none ↔ (∀ r ∈ rules, r.Sound) ∧
      (existing.isSome = true → ∀ r ∈ rules, r.isDefault = false) ∧
      rules.Pairwise (fun r u => ¬(r.isDefault = true ∧ u.isDefault = true)) ∧
      (before ++ allTaken rules).Pairwise Taken.Apart := by
  induction rules generalizing before existing with
  | nil => simp [rulesDefect?, allTaken, hb]
  | cons r rules ih =>
    have happ : before ++ allTaken (r :: rules) =
        (before ++ taken r r.symbols) ++ allTaken rules := by simp [allTaken]
    rw [rulesDefect?, List.forall_mem_cons, List.forall_mem_cons, List.pairwise_cons, happ]
    cases hd : ruleDefect? before existing r with
    | some d =>
      have hsome : ruleDefect? before existing r ≠ none := by simp [hd]
      have hno := mt (ruleDefect?_eq_none hb).2 hsome
      simp only [reduceCtorEq, false_iff]
      rintro ⟨⟨hr, -⟩, hexisting, -, hall⟩
      exact hno ⟨hr, fun h => (hexisting h).1, (List.pairwise_append.1 hall).1⟩
    | none =>
      obtain ⟨hr, hexisting, hbr⟩ := (ruleDefect?_eq_none hb).1 hd
      simp only [ih hbr]
      cases hdef : r.isDefault with
      | false => simp [hr]
      | true =>
        have hnone : existing.isSome = false := by simpa [hdef] using hexisting
        simp [hr, hnone, and_assoc]

theorem requirementDefect?_eq_none : requirementDefect? others q = none ↔ q.Provided others := by
  have hmet : (others.any fun o => o.symbols.any (q.isMetBy o)) = true ↔
      ∃ o ∈ others, ∃ s ∈ o.symbols, q.isMetBy o s = true := by simp
  have hiff : q.Provided others ↔ (∀ s, q = .symbol s → '.' ∉ s.toList) ∧
      (others.any fun o => o.symbols.any (q.isMetBy o)) = true :=
    ⟨fun h => ⟨h.undotted, hmet.2 h.met⟩, fun h => ⟨h.1, hmet.1 h.2⟩⟩
  rw [hiff]
  cases q with
  | category c => simp [requirementDefect?]
  | qualified c s => simp [requirementDefect?]
  | symbol s =>
    cases hcut : Text.cutChars? '.' s.toList with
    | none => simp [requirementDefect?, Text.cut?, hcut, Text.cutChars?_eq_none.1 hcut]
    | some p =>
      have hdot : '.' ∈ s.toList := by
        by_contra hdot
        rw [Text.cutChars?_eq_none.2 hdot] at hcut
        cases hcut
      simp [requirementDefect?, Text.cut?, hcut, hdot]

theorem requirementsDefect?_eq_none : requirementsDefect? rules = none ↔
    ∀ front r back, rules = front ++ r :: back → ∀ q ∈ r.requires, q.Provided (front ++ back) := by
  unfold requirementsDefect?
  simp only [List.findSome?_eq_none_iff, Option.map_eq_none_iff, requirementDefect?_eq_none]
  constructor
  · rintro h front r back rfl q hq
    have hr := h (r, front.length) (Combination.mem_zipIdx_iff_split.2 ⟨front, back, rfl, rfl⟩) q hq
    rwa [Combination.eraseIdx_split] at hr
  · rintro h ⟨r, i⟩ hri q hq
    obtain ⟨front, back, rfl, rfl⟩ := Combination.mem_zipIdx_iff_split.1 hri
    rw [Combination.eraseIdx_split]
    exact h front r back rfl q hq

theorem ofRules_eq_ok : ofRules rules = .ok lx ↔
    rulesDefect? [] none rules = none ∧ requirementsDefect? rules = none ∧ lx = ⟨rules⟩ := by
  unfold ofRules
  cases rulesDefect? [] none rules with
  | some e => simp
  | none =>
    cases requirementsDefect? rules with
    | some e => simp
    | none => simp [eq_comm]

theorem ofRules_iff_wellFormed : ofRules rules = .ok lx ↔ WellFormed rules ∧ lx = ⟨rules⟩ := by
  rw [ofRules_eq_ok, rulesDefect?_eq_none List.Pairwise.nil, requirementsDefect?_eq_none]
  constructor
  · rintro ⟨⟨hsound, -, hone, hapart⟩, hprovided, rfl⟩
    exact ⟨⟨hsound, hone, hapart, hprovided⟩, rfl⟩
  · rintro ⟨h, rfl⟩
    exact ⟨⟨h.sound, by simp, h.oneDefault, h.apart⟩, h.provided, rfl⟩

instance (t u : Taken) : Decidable (t.Apart u) := inferInstanceAs (Decidable (_ → _))

theorem apart_standard : (allTaken standard.rules).Pairwise Taken.Apart := by decide +kernel

theorem ofRules_standard : ofRules standard.rules = .ok standard := by
  have hsound : ∀ r ∈ standard.rules, r.symbols ≠ [] ∧ r.edits ≠ [] ∧ (∀ s ∈ r.symbols, s ≠ "") ∧
      (r.isDefault = true → r.category = .quality) := by decide
  have hrules : rulesDefect? [] none standard.rules = none :=
    (rulesDefect?_eq_none .nil).2 ⟨fun r hr => have h := hsound r hr
      ⟨h.1, h.2.1, h.2.2.1, h.2.2.2⟩, by simp, by decide, apart_standard⟩
  exact ofRules_eq_ok.2 ⟨hrules, by decide +kernel, rfl⟩

end Lexicon
end ChordSymbol
