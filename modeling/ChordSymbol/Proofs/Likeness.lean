import ChordSymbol.Proofs.Matching

/-! Modifiers that differ in nothing that is looked at. The place of a rule in its table, which of its
spellings comes first and how it treats letter case have no say once the tokens are there. -/
namespace ChordSymbol

/-- Rules that ask for the same, do the same and go by the same spellings. -/
structure Rule.Alike (r u : Rule) : Prop where
  symbols : ∀ s, s ∈ r.symbols ↔ s ∈ u.symbols
  category : r.category = u.category
  edits : r.edits = u.edits
  priority : r.priority = u.priority
  requires : r.requires = u.requires
  excludes : r.excludes = u.excludes

structure Modifier.Alike (m n : Modifier) : Prop where
  symbol : m.token.symbol = n.token.symbol
  rule : m.rule.Alike n.rule

/-- Tokens of two lexicons that stand for modifiers that are alike. -/
def Token.Alike (lx lx' : Lexicon) (t t' : Token) : Prop :=
  ∃ m n, lx.modifier t = .ok m ∧ lx'.modifier t' = .ok n ∧ m.Alike n

/-- Both refuse for one reason, or both succeed with results that `R` relates. -/
inductive SameOutcome {ε α β : Type} (R : α → β → Prop) : Except ε α → Except ε β → Prop
  | error (e : ε) : SameOutcome R (.error e) (.error e)
  | ok {a : α} {b : β} (h : R a b) : SameOutcome R (.ok a) (.ok b)

theorem Refusal.Matches.eq {e e' : Refusal} (h : e.Matches Eq e') : e = e' := by
  cases h with
  | conflictingQuality hs ht => rw [hs, ht]
  | conflictingRole r hs ht => rw [hs, ht]
  | excludedCombination c hs => rw [hs]
  | missingRequirement q hs => rw [hs]

theorem Step.Matches.eq {s s' : Step} (h : s.Matches Eq s') : s = s' := by
  cases s
  cases s'
  obtain ⟨rfl, rfl, rfl, rfl, rfl⟩ := h
  rfl

namespace Modifier.Alike

variable {m n : Modifier}

theorem isMetBy (h : m.Alike n) (q : Requirement) :
    q.isMetBy m.rule m.token.symbol = q.isMetBy n.rule n.token.symbol := by
  have hsymbol : ∀ s, m.rule.hasSymbol s = n.rule.hasSymbol s := fun s => by
    simp only [Rule.hasSymbol, List.contains_eq_mem, h.rule.symbols s]
  cases q <;> simp only [Requirement.isMetBy, hsymbol, h.symbol, h.rule.category]

/-- Modifiers that are alike match in equal spellings. -/
theorem toMatches (h : m.Alike n) : m.Matches Eq n where
  spelling := h.symbol
  company := h.isMetBy
  category := h.rule.category
  edits := h.rule.edits
  priority := h.rule.priority
  requires := h.rule.requires
  excludes := h.rule.excludes

end Modifier.Alike

namespace Token

variable {lx lx' : Lexicon} {t t' : Token} {ts ts' : List Token}

theorem Alike.toMatches (h : t.Alike lx lx' t') : t.Matches Eq lx lx' t' := by
  obtain ⟨m, n, hm, hn, hmn⟩ := h
  exact ⟨m, n, hm, hn, hmn.toMatches⟩

theorem Alike.symbol_eq (h : t.Alike lx lx' t') : t.symbol = t'.symbol := by
  obtain ⟨m, n, hm, hn, hmn⟩ := h
  obtain ⟨rfl, -⟩ := Lexicon.modifier_eq_ok.1 hm
  obtain ⟨rfl, -⟩ := Lexicon.modifier_eq_ok.1 hn
  exact hmn.symbol

end Token

namespace Lexicon

variable {lx lx' : Lexicon} {ts ts' : List Token}

theorem validate_alike (h : List.Forall₂ (Token.Alike lx lx') ts ts') :
    SameOutcome (fun us us' => us = ts ∧ us' = ts') (lx.validate ts) (lx'.validate ts') := by
  have hmatch := Combination.validate_matches (h.imp fun _ _ ht => ht.toMatches)
  generalize lx.validate ts = x, lx'.validate ts' = y at hmatch ⊢
  cases hmatch with
  | error he => exact he.eq ▸ .error _
  | ok hus => exact .ok hus

theorem derive_alike (hi : lx.implied = lx'.implied)
    (h : List.Forall₂ (Token.Alike lx lx') ts ts') : lx.derive ts = lx'.derive ts' := by
  obtain ⟨d, d', hd, hd', hvoicing, hsteps⟩ := derive_matches hi (h.imp fun _ _ ht => ht.toMatches)
  have hsame : d.steps = d'.steps := by
    rw [← List.forall₂_eq_eq_eq]
    exact hsteps.imp fun _ _ hs => hs.eq
  cases d
  cases d'
  cases hvoicing
  cases hsame
  exact hd.trans hd'.symm

theorem map_symbol_alike (h : List.Forall₂ (Token.Alike lx lx') ts ts') :
    ts.map (·.symbol) = ts'.map (·.symbol) := by
  rw [← List.forall₂_eq_eq_eq, List.forall₂_map_left_iff, List.forall₂_map_right_iff]
  exact h.imp fun _ _ ht => ht.symbol_eq

end Lexicon

namespace Interpreter

variable {i j : Interpreter}

theorem resolve_alike {symbol : String} (h : ∀ root suffix, Note.cut symbol = .ok (root, suffix) →
      SameOutcome (List.Forall₂ (Token.Alike i.lexicon j.lexicon))
        (i.lexicon.tokenize suffix) (j.lexicon.tokenize suffix)) :
    SameOutcome (fun r r' => r.root = r'.root ∧
      List.Forall₂ (Token.Alike i.lexicon j.lexicon) r.tokens r'.tokens)
      (i.resolve symbol) (j.resolve symbol) := by
  rw [resolve_eq, resolve_eq]
  cases hcut : Note.cut symbol with
  | error e => exact .error e
  | ok cut =>
    obtain ⟨root, suffix⟩ := cut
    have htokens := h root suffix hcut
    simp only
    generalize i.lexicon.tokenize suffix = x, j.lexicon.tokenize suffix = y at htokens ⊢
    cases htokens with
    | error e => exact .error e
    | @ok ts ts' hts =>
      have hvalid := Lexicon.validate_alike hts
      simp only
      generalize i.lexicon.validate ts = x, j.lexicon.validate ts' = y at hvalid ⊢
      cases hvalid with
      | error e => exact .error e
      | ok hus =>
        obtain ⟨rfl, rfl⟩ := hus
        exact .ok ⟨rfl, hts⟩

/-- Interpreters that find like tokens in the suffix of a symbol and take the same chord for granted read
the symbol alike. -/
theorem parse_eq_of_tokenize_alike {symbol : String} (hsep : i.separator = j.separator)
    (hi : i.lexicon.implied = j.lexicon.implied)
    (h : ∀ root suffix, Note.cut symbol = .ok (root, suffix) →
      SameOutcome (List.Forall₂ (Token.Alike i.lexicon j.lexicon))
        (i.lexicon.tokenize suffix) (j.lexicon.tokenize suffix)) :
    i.parse symbol = j.parse symbol := by
  have hread := resolve_alike h
  unfold parse
  generalize i.resolve symbol = x, j.resolve symbol = y at hread ⊢
  cases hread with
  | error e => rfl
  | @ok r r' hr =>
    obtain ⟨hroot, htokens⟩ := hr
    simp only [bind, Except.bind, pure, Except.pure, Lexicon.derive_alike hi htokens, hsep]
    cases j.lexicon.derive r'.tokens with
    | error e => rfl
    | ok d =>
      simp only
      cases Display.ofVoicing j.separator d.voicing with
      | error e => rfl
      | ok shown => simp only [chord, hroot, Lexicon.map_symbol_alike htokens]

theorem parse_eq_of_alike (hsep : i.separator = j.separator)
    (hi : i.lexicon.implied = j.lexicon.implied)
    (h : ∀ suffix, SameOutcome (List.Forall₂ (Token.Alike i.lexicon j.lexicon))
      (i.lexicon.tokenize suffix) (j.lexicon.tokenize suffix)) (symbol : String) :
    i.parse symbol = j.parse symbol :=
  parse_eq_of_tokenize_alike hsep hi fun _ suffix _ => h suffix

end Interpreter
end ChordSymbol
