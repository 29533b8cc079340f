import ChordSymbol.Proofs.Likeness
import ChordSymbol.Proofs.LongestMatch

/-! Tables whose rules and spellings stand in another order. The order would settle ties between
spellings, but of a lexicon no two that are equally long ever fit at one place. -/
namespace ChordSymbol

/-- The same rule with its spellings in another order. -/
def Rule.Respelled (r u : Rule) : Prop :=
  ∃ symbols, r.symbols.Perm symbols ∧ u = { r with symbols := symbols }

/-- The same rules in another order, each with its spellings in another order. -/
def Rearranged (rules rules' : List Rule) : Prop :=
  ∃ middle, rules.Perm middle ∧ List.Forall₂ Rule.Respelled middle rules'

namespace Rule.Respelled

variable {r u : Rule}

theorem refl (r : Rule) : r.Respelled r := ⟨r.symbols, .refl _, rfl⟩

theorem symm (h : r.Respelled u) : u.Respelled r := by
  obtain ⟨symbols, hperm, rfl⟩ := h
  exact ⟨r.symbols, hperm.symm, rfl⟩

theorem alike (h : r.Respelled u) : r.Alike u := by
  obtain ⟨symbols, hperm, rfl⟩ := h
  exact ⟨fun s => hperm.mem_iff, rfl, rfl, rfl, rfl, rfl⟩

theorem sound (h : r.Respelled u) (hr : r.Sound) : u.Sound := by
  obtain ⟨symbols, hperm, rfl⟩ := h
  have hne : symbols ≠ [] := by
    rintro rfl
    exact hr.symbols hperm.eq_nil
  exact ⟨hne, hr.edits, fun s hs => hr.symbol s (hperm.mem_iff.2 hs), hr.quality⟩

end Rule.Respelled

namespace Rearranged

variable {rules rules' : List Rule} {r u : Rule}

theorem symm (h : Rearranged rules rules') : Rearranged rules' rules := by
  obtain ⟨middle, hperm, hall⟩ := h
  obtain ⟨middle', hall', hperm'⟩ := List.perm_comp_forall₂ hperm hall
  exact ⟨middle', hperm'.symm, hall'.flip.imp fun _ _ hru => Rule.Respelled.symm hru⟩

/-- Two tables that are rearranged list the same pairs, up to order. -/
theorem exists_pairs_perm (h : Rearranged rules rules') : ∃ ps : List (Rule × Rule),
    rules.Perm (ps.map Prod.fst) ∧ ps.map Prod.snd = rules' ∧ ∀ p ∈ ps, p.1.Respelled p.2 := by
  obtain ⟨middle, hperm, hall⟩ := h
  obtain ⟨ps, rfl, hsnd, hps⟩ := exists_pairs hall
  exact ⟨ps, hperm, hsnd, hps⟩

theorem exists_respelled (h : Rearranged rules rules') (hr : r ∈ rules) :
    ∃ u ∈ rules', r.Respelled u := by
  obtain ⟨ps, hperm, rfl, hps⟩ := h.exists_pairs_perm
  obtain ⟨p, hp, rfl⟩ := List.mem_map.1 (hperm.mem_iff.1 hr)
  exact ⟨p.2, List.mem_map_of_mem hp, hps p hp⟩

/-- A rule and its likeness leave the same others behind. -/
theorem exists_split {front' back' : List Rule} (h : Rearranged rules (front' ++ u :: back')) :
    ∃ front r back, rules = front ++ r :: back ∧ r.Respelled u ∧
      Rearranged (front ++ back) (front' ++ back') := by
  obtain ⟨ps, hperm, hsnd, hps⟩ := h.exists_pairs_perm
  obtain ⟨fs, gs, rfl, rfl, hgs⟩ := List.map_eq_append_iff.1 hsnd
  obtain ⟨p, bs, rfl, rfl, rfl⟩ := List.map_eq_cons_iff.1 hgs
  have hmem : p.1 ∈ rules := hperm.mem_iff.2 (by simp)
  obtain ⟨front, back, rfl⟩ := List.append_of_mem hmem
  rw [List.map_append, List.map_cons] at hperm
  have hothers : (front ++ back).Perm ((fs ++ bs).map Prod.fst) := by
    rw [List.map_append]
    exact ((List.perm_middle.symm.trans hperm).trans List.perm_middle).cons_inv
  refine ⟨front, p.1, back, rfl, hps p (by simp), _, hothers, ?_⟩
  rw [← List.map_append]
  refine forall₂_of_pairs fun q hq => hps q ?_
  rcases List.mem_append.1 hq with hq | hq
  · exact List.mem_append_left _ hq
  · exact List.mem_append_right _ (List.mem_cons_of_mem p hq)

theorem oneDefault (h : Rearranged rules rules')
    (hw : rules.Pairwise fun r u => ¬(r.isDefault = true ∧ u.isDefault = true)) :
    rules'.Pairwise fun r u => ¬(r.isDefault = true ∧ u.isDefault = true) := by
  obtain ⟨ps, hperm, rfl, hps⟩ := h.exists_pairs_perm
  have hfst := hw.perm hperm fun hru hur => hru ⟨hur.2, hur.1⟩
  rw [List.pairwise_map] at hfst ⊢
  refine hfst.imp_of_mem fun {p q} hp hq hpq => ?_
  obtain ⟨_, -, hp'⟩ := hps p hp
  obtain ⟨_, -, hq'⟩ := hps q hq
  rwa [hp', hq']

/-- What tells whether two spellings may stand in one table. -/
def key (t : Lexicon.Taken) : String × Bool := (t.symbol, t.caseSensitive)

theorem map_key_allTaken (h : Rearranged rules rules') :
    ((Lexicon.allTaken rules).map key).Perm ((Lexicon.allTaken rules').map key) := by
  have hflat (rules : List Rule) : (Lexicon.allTaken rules).map key =
      rules.flatMap fun r => r.symbols.map (·, r.caseSensitive) := by
    simp [Lexicon.allTaken, Lexicon.taken, key, List.map_flatMap, Function.comp_def]
  obtain ⟨middle, hperm, hall⟩ := h
  rw [hflat, hflat]
  refine (hperm.flatMap_right _).trans ?_
  clear hperm
  induction hall with
  | nil => exact List.Perm.nil
  | cons hru _ ih =>
    obtain ⟨symbols, hsymbols, rfl⟩ := hru
    rw [List.flatMap_cons, List.flatMap_cons]
    exact (hsymbols.map _).append ih

theorem apart (h : Rearranged rules rules')
    (hw : (Lexicon.allTaken rules).Pairwise Lexicon.Taken.Apart) :
    (Lexicon.allTaken rules').Pairwise Lexicon.Taken.Apart := by
  let KeysApart : String × Bool → String × Bool → Prop := fun a b =>
    Lexicon.Taken.Apart ⟨a.1, "", a.2⟩ ⟨b.1, "", b.2⟩
  have hiff (rules : List Rule) : (Lexicon.allTaken rules).Pairwise Lexicon.Taken.Apart ↔
      ((Lexicon.allTaken rules).map key).Pairwise KeysApart := by
    rw [List.pairwise_map]
    exact Iff.rfl
  rw [hiff] at hw ⊢
  exact hw.perm h.map_key_allTaken Lexicon.Taken.Apart.symm

theorem provided {q : Requirement} (h : Rearranged rules rules') (hq : q.Provided rules) :
    q.Provided rules' := by
  obtain ⟨o, ho, s, hs, hmet⟩ := hq.met
  obtain ⟨u, hu, hou⟩ := h.exists_respelled ho
  refine ⟨hq.undotted, u, hu, s, (hou.alike.symbols s).1 hs, ?_⟩
  have hmn : Modifier.Alike ⟨⟨0, s⟩, o⟩ ⟨⟨0, s⟩, u⟩ := ⟨rfl, hou.alike⟩
  exact (hmn.isMetBy q).symm.trans hmet

theorem wellFormed (h : Rearranged rules rules') (hw : Lexicon.WellFormed rules) :
    Lexicon.WellFormed rules' where
  sound := by
    intro u hu
    obtain ⟨r, hr, hur⟩ := h.symm.exists_respelled hu
    exact hur.symm.sound (hw.sound r hr)
  oneDefault := h.oneDefault hw.oneDefault
  apart := h.apart hw.apart
  provided := by
    rintro front' u back' rfl q hq
    obtain ⟨front, r, back, rfl, hru, hothers⟩ := h.exists_split
    exact hothers.provided (hw.provided front r back rfl q (hru.alike.requires ▸ hq))

end Rearranged

namespace Spelling

variable {rules rules' : List Rule} {lx : Lexicon} {s t : Spelling} {cs rest left : List Char}

/-- The spelling that takes the place of `s` in a rearranged table. -/
theorem exists_likeness (h : Rearranged rules rules') (hs : s.In rules) :
    ∃ s' : Spelling, s'.In rules' ∧ s'.symbol = s.symbol ∧ s.rule.Respelled s'.rule := by
  obtain ⟨u, hu, hru⟩ := h.exists_respelled (List.mem_of_getElem? hs.rule)
  have hsymbol := (hru.alike.symbols s.symbol).1 (List.mem_of_getElem? hs.symbol)
  obtain ⟨i, hi⟩ := List.mem_iff_getElem?.1 hu
  obtain ⟨j, hj⟩ := List.mem_iff_getElem?.1 hsymbol
  exact ⟨⟨i, j, u, s.symbol⟩, ⟨hi, hj⟩, rfl, hru⟩

theorem Fits.respelled {s' : Spelling} (hsymbol : s'.symbol = s.symbol)
    (hrule : s.rule.Respelled s'.rule) (h : s.Fits cs rest) : s'.Fits cs rest := by
  obtain ⟨symbols, -, hrule⟩ := hrule
  have hfold : s'.fold = s.fold := by
    unfold fold
    rw [hrule]
  have hletters : s'.letters = s.letters := congrArg String.toList hsymbol
  exact ⟨by rw [hfold, hletters]; exact h.letters, hsymbol ▸ h.unguarded⟩

/-- What fits at `cs` in the one table stands in the other as well. -/
def CarriedOver (rules rules' : List Rule) (cs : List Char) : Prop :=
  ∀ (s : Spelling) (rest : List Char), s.In rules → s.Fits cs rest →
    ∃ s' : Spelling, s'.In rules' ∧ s'.symbol = s.symbol ∧ s.rule.Respelled s'.rule

theorem carriedOver_rearranged (h : Rearranged rules rules') (cs : List Char) :
    CarriedOver rules rules' cs := fun _ _ hs _ => exists_likeness h hs

/-- The longest match is the same spelling, wherever it stands. -/
theorem Longest.carried (hw : Lexicon.WellFormed rules') (hover : CarriedOver rules rules' cs)
    (hback : CarriedOver rules' rules cs) (hs : s.Longest rules cs rest) :
    ∃ s' : Spelling, s'.Longest rules' cs rest ∧ s'.symbol = s.symbol ∧ s.rule.Respelled s'.rule := by
  obtain ⟨s', hs', hsymbol, hrule⟩ := hover s rest hs.mem hs.fits
  have hfits := hs.fits.respelled hsymbol hrule
  refine ⟨s', longest_of_length_le hw hs' hfits fun t' left ht' htfits' => ?_, hsymbol, hrule⟩
  -- what fits in the one table fits in the other, and there `s` is as long
  obtain ⟨t, ht, htsymbol, htrule⟩ := hback t' left ht' htfits'
  have hsl : s'.letters = s.letters := congrArg String.toList hsymbol
  have htl : t.letters = t'.letters := congrArg String.toList htsymbol
  rw [hsl, ← htl]
  exact hs.length_le ht (htfits'.respelled htsymbol htrule)

end Spelling

namespace Lexicon

variable {rules rules' : List Rule} {lx : Lexicon} {cs left : List Char} {ts : List Token}

theorem token_alike {s s' : Spelling} (hs : s.In rules) (hs' : s'.In rules')
    (hsymbol : s'.symbol = s.symbol) (hrule : s.rule.Respelled s'.rule) :
    Token.Alike ⟨rules⟩ ⟨rules'⟩ s.token s'.token := by
  refine ⟨⟨s.token, s.rule⟩, ⟨s'.token, s'.rule⟩, ?_, ?_, hsymbol.symm, hrule.alike⟩
  · exact modifier_eq_ok.2 ⟨rfl, hs.rule⟩
  · exact modifier_eq_ok.2 ⟨rfl, hs'.rule⟩

/-- A run of longest matches takes the same spellings from the same places, if all that fits on the way
stands in both tables. -/
theorem exists_munch_carried (hw : WellFormed rules')
    (hover : ∀ tail, tail <:+ cs → Spelling.CarriedOver rules rules' tail)
    (hback : ∀ tail, tail <:+ cs → Spelling.CarriedOver rules' rules tail)
    (hm : Munch rules cs ts left) : ∃ ts', Munch rules' cs ts' left ∧
      List.Forall₂ (Token.Alike ⟨rules⟩ ⟨rules'⟩) ts ts' := by
  induction hm with
  | @stop cs stuck =>
    refine ⟨[], .stop fun s' rest hs' hfits' => ?_, .nil⟩
    obtain ⟨s, hs, hsymbol, hrule⟩ := hback cs List.suffix_rfl s' rest hs' hfits'
    exact stuck s rest hs (hfits'.respelled hsymbol hrule)
  | @take s cs rest left ts longest _ ih =>
    obtain ⟨front, hcs, -⟩ := longest.fits.letters
    have hrest : rest <:+ cs := ⟨front, hcs.symm⟩
    obtain ⟨ts', hts', halike⟩ := ih (fun tail ht => hover tail (ht.trans hrest))
      (fun tail ht => hback tail (ht.trans hrest))
    obtain ⟨s', hs', hsymbol, hrule⟩ :=
      longest.carried hw (hover cs List.suffix_rfl) (hback cs List.suffix_rfl)
    exact ⟨s'.token :: ts', .take hs' hts',
      .cons (token_alike longest.mem hs'.mem hsymbol hrule) halike⟩

theorem tokenize_carried (hok : ofRules rules = .ok ⟨rules⟩) (hok' : ofRules rules' = .ok ⟨rules'⟩)
    {suffix : String} (hover : ∀ tail, tail <:+ suffix.toList → Spelling.CarriedOver rules rules' tail)
    (hback : ∀ tail, tail <:+ suffix.toList → Spelling.CarriedOver rules' rules tail) :
    SameOutcome (List.Forall₂ (Token.Alike ⟨rules⟩ ⟨rules'⟩))
      (tokenize ⟨rules⟩ suffix) (tokenize ⟨rules'⟩ suffix) := by
  obtain ⟨ts, left, hm⟩ := exists_munch hok suffix.toList
  obtain ⟨ts', hm', halike⟩ :=
    exists_munch_carried (ofRules_iff_wellFormed.1 hok').1 hover hback hm
  unfold tokenize
  rw [scan_of_munch hok hm, scan_of_munch hok' hm']
  by_cases hleft : left = []
  · rw [if_pos hleft, if_pos hleft]
    exact .ok halike
  · rw [if_neg hleft, if_neg hleft]
    exact .error _

theorem tokenize_rearranged (h : Rearranged rules rules') (hok : ofRules rules = .ok ⟨rules⟩)
    (hok' : ofRules rules' = .ok ⟨rules'⟩) (suffix : String) :
    SameOutcome (List.Forall₂ (Token.Alike ⟨rules⟩ ⟨rules'⟩))
      (tokenize ⟨rules⟩ suffix) (tokenize ⟨rules'⟩ suffix) :=
  tokenize_carried hok hok' (fun tail _ => Spelling.carriedOver_rearranged h tail)
    (fun tail _ => Spelling.carriedOver_rearranged h.symm tail)

/-- The default is one rule, wherever it stands. -/
theorem implied_carried (hw : WellFormed rules')
    (hover : ∀ r ∈ rules, r.isDefault = true → ∃ u ∈ rules', r.Respelled u)
    (hback : ∀ u ∈ rules', u.isDefault = true → ∃ r ∈ rules, u.Respelled r) :
    implied ⟨rules⟩ = implied ⟨rules'⟩ := by
  unfold implied default?
  cases hr : rules.find? (·.isDefault) with
  | none =>
    have hnone : rules'.find? (·.isDefault) = none := by
      refine List.find?_eq_none.2 fun u hu hdefault => ?_
      obtain ⟨r, hmem, symbols, -, rfl⟩ := hback u hu hdefault
      exact List.find?_eq_none.1 hr _ hmem hdefault
    rw [hnone]
  | some r =>
    have hdefault : r.isDefault = true := List.find?_some hr
    obtain ⟨u, hu, symbols, hperm, rfl⟩ := hover r (List.mem_of_find?_eq_some hr) hdefault
    cases hu' : rules'.find? (·.isDefault) with
    | none =>
      have hno := List.find?_eq_none.1 hu' _ hu
      exact absurd hdefault hno
    | some u' =>
      have hdefault' : u'.isDefault = true := List.find?_some hu'
      have symm : Std.Symm fun r u : Rule => ¬(r.isDefault = true ∧ u.isDefault = true) :=
        ⟨fun _ _ hru hur => hru ⟨hur.2, hur.1⟩⟩
      have hsame : u' = { r with symbols := symbols } := by
        by_contra hne
        exact hw.oneDefault.forall (List.mem_of_find?_eq_some hu') hu hne ⟨hdefault', hdefault⟩
      rw [hsame]

theorem implied_rearranged (h : Rearranged rules rules') (hw : WellFormed rules') :
    implied ⟨rules⟩ = implied ⟨rules'⟩ :=
  implied_carried hw (fun _ hr _ => h.exists_respelled hr) fun _ hu _ => h.symm.exists_respelled hu

/-- A lexicon may be rearranged at will: it stays one, and all symbols are read as before. -/
theorem parse_rearranged (rules rules' : List Rule) (h : Rearranged rules rules') (lx : Lexicon)
    (hok : ofRules rules = .ok lx) : ∃ lx', ofRules rules' = .ok lx' ∧ ∀ separator symbol,
      (Interpreter.mk lx separator).parse symbol = (Interpreter.mk lx' separator).parse symbol := by
  obtain ⟨hw, rfl⟩ := ofRules_iff_wellFormed.1 hok
  have hw' := h.wellFormed hw
  have hok' : ofRules rules' = .ok ⟨rules'⟩ := ofRules_iff_wellFormed.2 ⟨hw', rfl⟩
  refine ⟨⟨rules'⟩, hok', fun separator symbol => ?_⟩
  exact Interpreter.parse_eq_of_alike (i := ⟨⟨rules⟩, separator⟩) (j := ⟨⟨rules'⟩, separator⟩) rfl
    (implied_rearranged h hw') (tokenize_rearranged h hok hok') symbol

/-- Two qualities and two extensions, with the rules and their spellings listed backwards. -/
theorem parse_rearranged_backwards :
    Rearranged minorMajor (minorMajor.reverse.map fun r => { r with symbols := r.symbols.reverse }) ∧
    ofRules minorMajor = .ok ⟨minorMajor⟩ ∧ ∃ lx',
      ofRules (minorMajor.reverse.map fun r => { r with symbols := r.symbols.reverse }) = .ok lx' ∧
      (Interpreter.ofLexicon ⟨minorMajor⟩).parse "Cmmaj7" = (Interpreter.ofLexicon lx').parse "Cmmaj7" := by
  have h : Rearranged minorMajor
      (minorMajor.reverse.map fun r => { r with symbols := r.symbols.reverse }) := by
    refine ⟨minorMajor.reverse, (List.reverse_perm _).symm, List.forall₂_map_right_iff.2 ?_⟩
    exact List.forall₂_same.2 fun r _ => ⟨_, (List.reverse_perm _).symm, rfl⟩
  have hok : ofRules minorMajor = .ok ⟨minorMajor⟩ :=
    ofRules_eq_ok.2 ⟨by decide +kernel, by decide +kernel, rfl⟩
  obtain ⟨lx', hok', hparse⟩ := parse_rearranged _ _ h _ hok
  exact ⟨h, hok, lx', hok', hparse _ _⟩

end Lexicon
end ChordSymbol
