import ChordSymbol.Proofs.Evaluation
import ChordSymbol.Proofs.Lossless

/-! Symbols written anew, each modifier as its rule spells it. Only the case of letters changes, and
the built-in lexicon finds the same tokens again; but behind a bare letter a `B` that becomes `b` is an
accidental. -/
namespace ChordSymbol

namespace Note

variable {cs ds : List Char}

/-- `b` is the only accidental that is a letter with case. -/
theorem eq_or_isAlpha_of_accidental {a : Char} (h : a ∈ accidentals) :
    a = 'b' ∨ a.isAlpha = false := by
  rcases accidental_cases h with rfl | rfl | rfl | rfl <;> decide

theorem eq_or_capital_of_toLower {c : Char} (h : c.toLower = 'b') : c = 'b' ∨ c = 'B' := by
  rcases Text.toLower_cases c with hc | ⟨n, hn, rfl⟩
  · exact .inl (hc.symm.trans h)
  · have hB : ∀ n < 26, (Char.ofNat (65 + n)).toLower = 'b' → Char.ofNat (65 + n) = 'B' := by
      decide +kernel
    exact .inr (hB n hn h)

/-- An accidental that comes with a change of letter case is a flat. -/
theorem exists_flat (h : cs.map Char.toLower = ds.map Char.toLower) (hcs : Plain cs)
    (hds : ¬Plain ds) : ∃ tail left, cs = 'B' :: tail ∧ ds = 'b' :: left := by
  cases ds with
  | nil => exact absurd plain_nil hds
  | cons a ds =>
    cases cs with
    | nil => simp at h
    | cons c cs =>
      obtain ⟨hca, -⟩ := List.cons.inj h
      have hc : c ∉ accidentals := plain_cons.1 hcs
      have ha : a ∈ accidentals := not_not.1 (mt plain_cons.2 hds)
      rcases eq_or_isAlpha_of_accidental ha with rfl | halpha
      · rcases eq_or_capital_of_toLower hca with rfl | rfl
        · exact absurd ha hc
        · exact ⟨cs, ds, rfl, rfl⟩
      · exact absurd ha (Text.eq_of_toLower_eq hca halpha ▸ hc)

end Note

namespace Spelling

variable {s t : Spelling} {cs ds piece rest : List Char}

/-- There is only one way to write `s`. -/
def Rigid (s : Spelling) : Prop :=
  s.rule.caseSensitive = true ∨ s.letters.any Char.isAlpha = false

instance (s : Spelling) : Decidable s.Rigid := inferInstanceAs (Decidable (_ ∨ _))

theorem eq_of_written_of_rigid (hs : s.Rigid) (h : s.Written piece) : piece = s.letters := by
  rcases hs with hcase | halpha
  · exact eq_of_written hcase h
  · exact Text.eq_of_map_toLower (map_toLower_of_written h) (by simpa using halpha)

theorem fits_of_written (hm : s.symbol ≠ "m") (h : s.Written piece) (rest : List Char) :
    s.Fits (piece ++ rest) rest :=
  ⟨⟨piece, rfl, h⟩, fun hs => absurd hs hm⟩

/-- Where letter case does not count, a change of it changes nothing. -/
theorem exists_fits_of_map_toLower (hcase : ¬s.rule.caseSensitive = true) (hm : s.symbol ≠ "m")
    (h : s.Fits cs rest) (hlower : ds.map Char.toLower = cs.map Char.toLower) :
    ∃ left, s.Fits ds left := by
  obtain ⟨piece, rfl, hw⟩ := h.letters
  rw [List.map_append] at hlower
  obtain ⟨piece', left, rfl, hpiece, -⟩ := List.map_eq_append_iff.1 hlower
  refine ⟨left, fits_of_written hm ?_ left⟩
  rw [Written, fold_eq_toLower hcase, hpiece]
  rwa [fold_eq_toLower hcase] at hw

end Spelling

/-- What can be written in several ways neither starts nor ends what is written in one case only. -/
def CaseApart (rules : List Rule) : Prop :=
  ∀ x ∈ Spelling.all rules, x.rule.caseSensitive = true →
    ∀ y ∈ Spelling.all rules, ¬y.Rigid → ¬y.word <+: x.word ∧ ¬y.word <:+ x.word

instance (rules : List Rule) : Decidable (CaseApart rules) :=
  inferInstanceAs (Decidable (∀ x ∈ _, _))

theorem CaseApart.rigid {rules : List Rule} {x y : Spelling} (h : CaseApart rules)
    (hx : x.In rules) (hcase : x.rule.caseSensitive = true) (hy : y.In rules)
    (hends : y.word <+: x.word ∨ y.word <:+ x.word) : y.Rigid := by
  by_contra hfree
  obtain ⟨hstart, hend⟩ := h x (Spelling.mem_all.2 hx) hcase y (Spelling.mem_all.2 hy) hfree
  exact hends.elim hstart hend

namespace Token

variable {rules : List Rule} {lx : Lexicon} {t : Token} {ts : List Token} {own : List (List Char)}

/-- The text of some tokens, each as its rule spells it. -/
def canonical (ts : List Token) : List Char := (ts.map (·.symbol.toList)).flatten

theorem canonical_cons (t : Token) (ts : List Token) :
    canonical (t :: ts) = t.symbol.toList ++ canonical ts := rfl

theorem exists_spelling (h : List.Forall₂ (Writes rules) ts own) :
    ∀ t ∈ ts, ∃ s : Spelling, s.In rules ∧ s.token = t := by
  induction h with
  | nil => simp
  | cons ht _ ih =>
    obtain ⟨s, hs, hst, -⟩ := ht
    exact List.forall_mem_cons.2 ⟨⟨s, hs, hst⟩, ih⟩

theorem symbol_ne_nil (h : Lexicon.ofRules rules = .ok lx)
    (hwrites : List.Forall₂ (Writes rules) ts own) : ∀ t ∈ ts, t.symbol.toList ≠ [] := by
  intro t ht
  obtain ⟨s, hs, rfl⟩ := exists_spelling hwrites t ht
  exact Lexicon.letters_ne_nil h hs

theorem cutting_canonical (h : List.Forall₂ (Writes rules) ts own) :
    Cutting rules (ts.map (·.symbol.toList)) (canonical ts) := by
  refine ⟨rfl, fun p hp => ?_⟩
  obtain ⟨t, ht, rfl⟩ := List.mem_map.1 hp
  obtain ⟨s, hs, rfl⟩ := exists_spelling h t ht
  exact ⟨s, hs, rfl⟩

theorem map_toLower_canonical (h : List.Forall₂ (Writes rules) ts own) :
    (canonical ts).map Char.toLower = own.flatten.map Char.toLower := by
  induction h with
  | nil => rfl
  | cons hp _ ih =>
    obtain ⟨s, -, rfl, hw⟩ := hp
    rw [canonical_cons, List.flatten_cons, List.map_append, List.map_append, ih,
      Spelling.map_toLower_of_written hw]
    rfl

end Token

namespace Spelling

variable {rules : List Rule} {lx : Lexicon} {s t : Spelling} {cs piece v rest : List Char}
  {ts : List Token} {own : List (List Char)}

/-- What a match has beyond the first of some spellings is the second of them. -/
theorem exists_second (hc : Conclusive rules) (hs : s.In rules) (ht : t.In rules)
    (hv : s.letters ++ v = t.letters) (hne : v ≠ [])
    (hwrites : List.Forall₂ (Token.Writes rules) ts own)
    (hrest : Token.canonical ts = v ++ rest) : ∃ (z : Spelling) (p others : List Char),
      z.In rules ∧ z.letters = v ∧ z.Written p ∧ own.flatten = p ++ others := by
  have hword : s.word ++ v.map Char.toLower = t.word := by
    rw [word, word, ← hv, List.map_append]
  have hbeyond := hc.beyond_append (hword ▸ word_mem_words ht) (word_mem_words hs)
    (by simpa using hne)
  have hcut : Cutting rules (ts.map (·.symbol.toList)) (v ++ rest) :=
    hrest ▸ Token.cutting_canonical hwrites
  obtain ⟨others, hothers, -⟩ := hcut.exists_first_eq hne hbeyond
  cases hwrites with
  | nil => cases hothers
  | @cons u p ts own hu _ =>
    obtain ⟨z, hz, rfl, hp⟩ := hu
    exact ⟨z, p, own.flatten, hz, (List.cons.inj hothers).1, hp, rfl⟩

/-- A match longer than the first of some spellings does not depend on how they are written. -/
theorem exists_fits_of_canonical (hc : Conclusive rules) (hcase : CaseApart rules) (hs : s.In rules)
    (hpiece : s.Written piece) (hwrites : List.Forall₂ (Token.Writes rules) ts own)
    (ht : t.In rules) (hm : t.symbol ≠ "m") (hlen : s.letters.length < t.letters.length)
    (hfits : t.Fits (s.letters ++ Token.canonical ts) rest) :
    ∃ left, t.Fits (piece ++ own.flatten) left := by
  by_cases htcase : t.rule.caseSensitive = true
  · obtain ⟨q, hq, hqt⟩ := hfits.letters
    obtain rfl : q = t.letters := eq_of_written htcase hqt
    obtain ⟨v, hv⟩ : s.letters <+: t.letters :=
      List.prefix_of_prefix_length_le ⟨_, rfl⟩ ⟨rest, hq.symm⟩ hlen.le
    have hne : v ≠ [] := by
      rintro rfl
      rw [← hv, List.append_nil] at hlen
      exact Nat.lt_irrefl _ hlen
    rw [← hv, List.append_assoc, List.append_cancel_left_eq] at hq
    obtain ⟨z, p, others, hz, rfl, hp, hown⟩ := exists_second hc hs ht hv hne hwrites hq
    -- nothing but these letters can stand for `s` and `z`
    have hword : s.word ++ z.word = t.word := by
      rw [word, word, word, ← hv, List.map_append]
    have hsrigid : s.Rigid := hcase.rigid ht htcase hs (.inl ⟨_, hword⟩)
    have hzrigid : z.Rigid := hcase.rigid ht htcase hz (.inr ⟨_, hword⟩)
    refine ⟨others, ?_⟩
    rw [hown, eq_of_written_of_rigid hsrigid hpiece, eq_of_written_of_rigid hzrigid hp,
      ← List.append_assoc, hv]
    exact fits_of_written hm rfl others
  · refine exists_fits_of_map_toLower htcase hm hfits ?_
    rw [List.map_append, List.map_append, map_toLower_of_written hpiece,
      Token.map_toLower_canonical hwrites]
    rfl

/-- Where a spelling is the longest match, it is that too when all is written canonically. -/
theorem Longest.canonical (h : Lexicon.ofRules rules = .ok lx) (hc : Conclusive rules)
    (hcase : CaseApart rules) (hl : s.Longest rules cs own.flatten)
    (hwrites : List.Forall₂ (Token.Writes rules) ts own) :
    s.Longest rules (s.letters ++ Token.canonical ts) (Token.canonical ts) := by
  obtain ⟨piece, rfl, hpiece⟩ := hl.fits.letters
  have hfits : s.Fits (s.letters ++ Token.canonical ts) (Token.canonical ts) := by
    refine ⟨⟨s.letters, rfl, rfl⟩, fun hm => ?_⟩
    rw [Token.map_toLower_canonical hwrites]
    exact hl.fits.unguarded hm
  have hw : Lexicon.WellFormed rules := (Lexicon.ofRules_iff_wellFormed.1 h).1
  refine longest_of_length_le hw hl.mem hfits fun t rest ht htfits => ?_
  by_contra hlen
  have hm : t.symbol ≠ "m" := fun hm => hlen (Lexicon.length_le_of_m h hl.mem hm)
  have hgt : s.letters.length < t.letters.length := Nat.lt_of_not_le hlen
  obtain ⟨left, hleft⟩ := exists_fits_of_canonical hc hcase hl.mem hpiece hwrites ht hm hgt htfits
  exact hlen (hl.length_le ht hleft)

end Spelling

/-- The canonical text of the tokens of a text has just these tokens. -/
theorem Munch.canonical {rules : List Rule} {lx : Lexicon} {cs left : List Char} {ts : List Token}
    (h : Lexicon.ofRules rules = .ok lx) (hc : Conclusive rules) (hcase : CaseApart rules)
    (hm : Munch rules cs ts left) (hleft : left = []) : Munch rules (Token.canonical ts) ts [] := by
  induction hm with
  | stop => exact .nil h
  | @take s cs rest left ts longest further ih =>
    obtain ⟨own, hown, hwrites⟩ := further.exists_pieces
    rw [hleft, List.append_nil] at hown
    subst hown
    exact .take (longest.canonical h hc hcase hwrites) (ih hleft)

theorem Lexicon.caseApart_standard : CaseApart standard.rules := by decide +kernel

namespace Reading

variable {r : Reading} {ts : List Token} {symbol suffix : String}

/-- The symbol with every modifier as its rule spells it. -/
def canonical (r : Reading) : String := r.root ++ String.join (r.tokens.map (·.symbol))

/-- The root is a bare letter, and the rule of the first modifier spells it with a `b` in front. -/
def Flattens (r : Reading) : Prop :=
  r.root.length = 1 ∧ ∃ t ∈ r.tokens.head?, ['b'] <+: t.symbol.toList

instance (r : Reading) : Decidable r.Flattens := inferInstanceAs (Decidable (_ ∧ _))

theorem toList_canonical (r : Reading) :
    r.canonical.toList = r.root.toList ++ Token.canonical r.tokens := by
  rw [canonical, String.toList_append, String.toList_join, Token.canonical, List.flatMap_map,
    List.flatMap_def]

theorem prefix_canonical_iff (hne : ∀ t ∈ ts, t.symbol.toList ≠ []) :
    ['b'] <+: Token.canonical ts ↔ ∃ t ∈ ts.head?, ['b'] <+: t.symbol.toList := by
  cases ts with
  | nil => simp [Token.canonical]
  | cons t ts =>
    obtain ⟨c, cs, hcs⟩ := List.exists_cons_of_ne_nil (hne t List.mem_cons_self)
    simp [Token.canonical_cons, hcs]

section Roots

variable (hcut : Note.cut symbol = .ok (r.root, suffix))
  (hlower : suffix.toList.map Char.toLower = (Token.canonical r.tokens).map Char.toLower)
  (hne : ∀ t ∈ r.tokens, t.symbol.toList ≠ [])

include hcut hlower hne

/-- The root stays what it is, unless the modifiers give it a flat. -/
theorem cut_canonical (hr : ¬r.Flattens) :
    Note.cut r.canonical = .ok (r.root, String.ofList (Token.canonical r.tokens)) := by
  rw [Note.cut_eq_ok, Note.cutChars?_eq_some] at hcut ⊢
  rw [String.toList_ofList]
  refine ⟨r.toList_canonical, hcut.2.imp_left ?_⟩
  rintro ⟨c, hone, hc, hplain⟩
  refine ⟨c, hone, hc, ?_⟩
  by_contra hflat
  obtain ⟨tail, left, -, hb⟩ := Note.exists_flat hlower hplain hflat
  refine hr ⟨?_, (prefix_canonical_iff hne).1 ⟨left, hb.symm⟩⟩
  rw [← String.length_toList, hone]
  rfl

theorem cut_canonical_of_flattens (hr : r.Flattens) : ∃ letter tail left,
    r.root.toList = [letter] ∧ symbol.toList = letter :: 'B' :: tail ∧
      Note.cut r.canonical = .ok (r.root ++ "b", String.ofList left) := by
  obtain ⟨hlength, hfirst⟩ := hr
  rw [← String.length_toList] at hlength
  obtain ⟨left, hb⟩ := (prefix_canonical_iff hne).2 hfirst
  obtain ⟨hwhole, ⟨c, hone, hc, hplain⟩ | ⟨c, a, htwo, -, -⟩⟩ :=
    Note.cutChars?_eq_some.1 (Note.cut_eq_ok.1 hcut)
  · have hflat : ¬Note.Plain (Token.canonical r.tokens) := by
      rw [← hb]
      exact fun h => Note.plain_cons.1 h (by decide)
    obtain ⟨tail, -, hB, -⟩ := Note.exists_flat hlower hplain hflat
    refine ⟨c, tail, left, hone, by rw [hwhole, hone, hB]; rfl, ?_⟩
    rw [Note.cut_eq_ok, Note.cutChars?_eq_some, toList_canonical, ← hb, String.toList_append, hone,
      String.toList_ofList]
    exact ⟨by simp, .inr ⟨c, 'b', rfl, hc, by decide⟩⟩
  · rw [htwo] at hlength
    cases hlength

end Roots

end Reading

namespace Interpreter

/-- Written anew with the spellings that the rules have, a symbol of the built-in lexicon is the same
chord, but for a bare letter that a `B` after it does not flatten and a `b` does. -/
theorem resolve_canonical (separator symbol : String) (r : Reading)
    (h : (Interpreter.mk .standard separator).resolve symbol = .ok r) :
    (r.Flattens →
      (∃ letter tail, r.root.toList = [letter] ∧ symbol.toList = letter :: 'B' :: tail) ∧
      ∃ rest, Note.cut r.canonical = .ok (r.root ++ "b", rest)) ∧
    (¬r.Flattens → (Interpreter.mk .standard separator).resolve r.canonical = .ok r ∧
      ∃ c, (Interpreter.mk .standard separator).parse symbol = .ok c ∧
        (Interpreter.mk .standard separator).parse r.canonical =
          .ok { c with input := r.canonical }) := by
  obtain ⟨suffix, hcut, hts, hvalid⟩ := exists_stages h
  have hm := Lexicon.munch_of_tokenize Lexicon.ofRules_standard hts
  obtain ⟨own, hown, hwrites⟩ := hm.exists_pieces
  rw [List.append_nil] at hown
  have hlower := (Token.map_toLower_canonical hwrites).symm
  rw [hown] at hlower
  have hne := Token.symbol_ne_nil Lexicon.ofRules_standard hwrites
  refine ⟨fun hr => ?_, fun hr => ?_⟩
  · obtain ⟨letter, tail, left, hroot, hsymbol, hflat⟩ :=
      Reading.cut_canonical_of_flattens hcut hlower hne hr
    exact ⟨⟨letter, tail, hroot, hsymbol⟩, _, hflat⟩
  · have hcut' := Reading.cut_canonical hcut hlower hne hr
    have hm' := hm.canonical Lexicon.ofRules_standard Lexicon.conclusive_standard
      Lexicon.caseApart_standard rfl
    have hts' := Lexicon.tokenize_ofList Lexicon.ofRules_standard hm'
    have hr' : (Interpreter.mk .standard separator).resolve r.canonical = .ok r := by
      rw [resolve_eq, hcut']
      simp only [hts', hvalid]
      rfl
    obtain ⟨d, shown, hd, hshown, hc⟩ := exists_parse h
    obtain ⟨d', shown', hd', hshown', hc'⟩ := exists_parse hr'
    cases hd.symm.trans hd'
    cases hshown.symm.trans hshown'
    exact ⟨hr', _, hc, hc'⟩

/-- A capital `B` in a suffix may be small as well, but not behind a bare letter. -/
theorem resolve_canonical_fifth : ∃ r s : Reading,
    (Interpreter.mk .standard ",").resolve "Gm7B5" = .ok r ∧
    (Interpreter.mk .standard ",").resolve "Gm7b5" = .ok r ∧
    (Interpreter.mk .standard ",").resolve "CB5" = .ok s ∧ s.root = "C" ∧
    ∃ rest, Note.cut "Cb5" = .ok ("Cb", rest) := by
  let r : Reading := ⟨"G", [⟨1, "m"⟩, ⟨9, "7"⟩, ⟨20, "b5"⟩]⟩
  let s : Reading := ⟨"C", [⟨20, "b5"⟩]⟩
  have hread : (Interpreter.mk .standard ",").resolve "Gm7B5" = .ok r ∧
      (Interpreter.mk .standard ",").resolve "CB5" = .ok s := by
    simp only [resolve, Lexicon.tokenize_eq_scanWithin, Lexicon.validate, Combination.finish,
      Modifier.inOrder_eq_insertionSort]
    decide +kernel
  have hr : ¬r.Flattens := by decide
  have hs : s.Flattens := by decide
  obtain ⟨hagain, -⟩ := (resolve_canonical _ _ r hread.1).2 hr
  obtain ⟨-, hflat⟩ := (resolve_canonical _ _ s hread.2).1 hs
  exact ⟨r, s, hread.1, hagain, hread.2, rfl, hflat⟩

end Interpreter
end ChordSymbol
