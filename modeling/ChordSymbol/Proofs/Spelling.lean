import ChordSymbol.Proofs.Admission
import ChordSymbol.Proofs.LetterCase
import Mathlib.Data.List.Basic

/-! The spellings of a table and where each fits. A table's spellings are sorted once, longest first;
since the sort is stable, two that tie stay as the table has them, and the first that fits is the
one that comes before all others that fit. Of a lexicon no two that tie ever fit at one place. -/
namespace ChordSymbol

namespace Text

variable {same : Char → Char → Bool} {fold : Char → Char} {w cs rest : List Char}

/-- Cutting off a word whose letters are compared through `fold`. -/
theorem strip?_eq_some (hsame : ∀ a c, same a c = true ↔ fold a = fold c) :
    strip? same w cs = some rest ↔ ∃ front, cs = front ++ rest ∧ front.map fold = w.map fold := by
  induction w generalizing cs with
  | nil => simp [strip?, eq_comm]
  | cons a w ih =>
    cases cs with
    | nil => simp [strip?]
    | cons c cs =>
      by_cases hac : fold a = fold c
      · have hs : strip? same (a :: w) (c :: cs) = strip? same w cs := by
          simp [strip?, (hsame a c).2 hac]
        rw [hs, ih]
        constructor
        · rintro ⟨front, rfl, hw⟩
          exact ⟨c :: front, rfl, by simp [hac, hw]⟩
        · rintro ⟨front, hcs, hw⟩
          cases front with
          | nil => simp at hw
          | cons d front =>
            simp only [List.map_cons, List.cons.injEq] at hw
            exact ⟨front, (List.cons.inj hcs).2, hw.2⟩
      · have hs : strip? same (a :: w) (c :: cs) = none := by
          simp [strip?, mt (hsame a c).1 hac]
        rw [hs]
        refine iff_of_false (by simp) ?_
        rintro ⟨front, hcs, hw⟩
        cases front with
        | nil => simp at hw
        | cons d front =>
          simp only [List.map_cons, List.cons.injEq] at hw
          exact hac (by rw [(List.cons.inj hcs).1, hw.1])

theorem strip?_isSome (hsame : ∀ a c, same a c = true ↔ fold a = fold c) :
    (strip? same w cs).isSome ↔ w.map fold <+: cs.map fold := by
  rw [Option.isSome_iff_exists]
  constructor
  · rintro ⟨rest, h⟩
    obtain ⟨front, rfl, hw⟩ := (strip?_eq_some hsame).1 h
    exact ⟨rest.map fold, by simp [hw]⟩
  · rintro ⟨tail, h⟩
    obtain ⟨front, rest, rfl, hw, -⟩ := List.map_eq_append_iff.1 h.symm
    exact ⟨rest, (strip?_eq_some hsame).2 ⟨front, rfl, hw⟩⟩

end Text

section Search

variable {α β : Type} {le : α → α → Bool} {R : α → α → Prop} {f : α → Option β} {b : β} {l : List α}

theorem zipIdx_ascending (l : List α) : l.zipIdx.Pairwise fun a b => a.2 < b.2 := by
  have h := List.pairwise_lt_range' (s := 0) (n := l.length)
  rw [← List.zipIdx_map_snd, List.pairwise_map] at h
  exact h

/-- Sorting a list that `R` orders keeps `R` among the items that tie. -/
theorem pairwise_mergeSort_tie (trans : ∀ a b c, le a b = true → le b c = true → le a c = true)
    (total : ∀ a b, (le a b || le b a) = true) (h : l.Pairwise R) :
    (l.mergeSort le).Pairwise fun a b => le a b = true ∧ (le b a = true → R a b) := by
  -- the sort of the numbered list, which compares the numbers of items that tie
  let numbered := l.zipIdx.mergeSort (List.zipIdxLE le)
  have hperm : numbered.Perm l.zipIdx := List.mergeSort_perm _ _
  have hsorted : numbered.Pairwise fun x y => List.zipIdxLE le x y = true :=
    List.pairwise_mergeSort (List.zipIdxLE_trans trans)
      (List.zipIdxLE_total total) _
  have hnumbers : numbered.Pairwise fun x y => x.2 ≠ y.2 :=
    ((zipIdx_ascending l).imp Nat.ne_of_lt).perm hperm.symm Ne.symm
  rw [← List.mergeSort_zipIdx, List.pairwise_map]
  refine (hsorted.and hnumbers).imp_of_mem fun {x y} hx hy hxy => ?_
  have hx' := List.mem_zipIdx_iff_getElem?.1 (hperm.mem_iff.1 hx)
  have hy' := List.mem_zipIdx_iff_getElem?.1 (hperm.mem_iff.1 hy)
  obtain ⟨hle, hne⟩ := hxy
  by_cases hxy : le x.1 y.1 = true
  · refine ⟨hxy, fun hyx => ?_⟩
    have hlt : x.2 < y.2 := by
      simp only [List.zipIdxLE, hxy, hyx, if_true, decide_eq_true_eq] at hle
      omega
    obtain ⟨i, hi⟩ := List.getElem?_eq_some_iff.1 hx'
    obtain ⟨j, hj⟩ := List.getElem?_eq_some_iff.1 hy'
    rw [← hi, ← hj]
    exact List.pairwise_iff_getElem.1 h x.2 y.2 i j hlt
  · simp [List.zipIdxLE, hxy] at hle

/-- In an ordered list the first hit comes before every other hit. -/
theorem findSome?_eq_some_iff_first (asymm : ∀ a b, R a b → ¬R b a) (h : l.Pairwise R) :
    l.findSome? f = some b ↔
      ∃ a ∈ l, f a = some b ∧ ∀ x ∈ l, (f x).isSome → x = a ∨ R a x := by
  constructor
  · intro hb
    obtain ⟨front, a, back, rfl, ha, hfront⟩ := List.findSome?_eq_some_iff.1 hb
    refine ⟨a, by simp, ha, fun x hx hsome => ?_⟩
    rcases List.mem_append.1 hx with hx | hx
    · rw [hfront x hx] at hsome
      cases hsome
    · rcases List.mem_cons.1 hx with rfl | hx
      · exact .inl rfl
      · exact .inr ((List.pairwise_cons.1 (List.pairwise_append.1 h).2.1).1 x hx)
  · rintro ⟨a, hmem, ha, hfirst⟩
    obtain ⟨front, back, rfl⟩ := List.append_of_mem hmem
    refine List.findSome?_eq_some_iff.2 ⟨front, a, back, rfl, ha, fun x hx => ?_⟩
    have hxa : R x a := (List.pairwise_append.1 h).2.2 x hx a List.mem_cons_self
    by_contra hne
    rcases hfirst x (List.mem_append_left _ hx) (Option.isSome_iff_ne_none.2 hne) with rfl | hax
    · exact asymm x x hxa hxa
    · exact asymm x a hxa hax

end Search

/-- A spelling in a table: its rule stands at `index` in the table, and it at `place` in the rule. -/
structure Spelling where
  index : Nat
  place : Nat
  rule : Rule
  symbol : String
  deriving DecidableEq

namespace Spelling

variable {rules : List Rule} {s t : Spelling} {cs rest : List Char}

def letters (s : Spelling) : List Char := s.symbol.toList

def token (s : Spelling) : Token := ⟨s.index, s.symbol⟩

def pattern (s : Spelling) : Pattern := ⟨s.token, s.rule.priority, s.rule.caseSensitive⟩

structure In (rules : List Rule) (s : Spelling) : Prop where
  rule : rules[s.index]? = some s.rule
  symbol : s.rule.symbols[s.place]? = some s.symbol

/-- What counts of a letter where `s` is compared with a text. -/
def fold (s : Spelling) (c : Char) : Char := if s.rule.caseSensitive then c else c.toLower

/-- `piece` is a way to write `s`. -/
def Written (s : Spelling) (piece : List Char) : Prop := piece.map s.fold = s.letters.map s.fold

/-- The letters of `s`, all of them small. -/
def word (s : Spelling) : List Char := s.letters.map Char.toLower

/-- `s` fits at the front of `cs` and leaves `rest`; the spelling `m` never stands before `aj`. -/
structure Fits (s : Spelling) (cs rest : List Char) : Prop where
  letters : ∃ front, cs = front ++ rest ∧ front.map s.fold = s.letters.map s.fold
  unguarded : s.symbol = "m" → ¬['a', 'j'] <+: rest.map Char.toLower

/-- `s` is taken rather than `t`: longer, else lower in priority, else earlier in the table. -/
def Prior (s t : Spelling) : Prop :=
  t.letters.length < s.letters.length ∨ s.letters.length = t.letters.length ∧
    (s.rule.priority < t.rule.priority ∨ s.rule.priority = t.rule.priority ∧
      (s.index < t.index ∨ s.index = t.index ∧ s.place < t.place))

instance (s t : Spelling) : Decidable (s.Prior t) := inferInstanceAs (Decidable (_ ∨ _))

/-- `s` comes before everything in the table that fits at `cs`. -/
structure Longest (rules : List Rule) (s : Spelling) (cs rest : List Char) : Prop where
  mem : s.In rules
  fits : s.Fits cs rest
  first : ∀ t left, t.In rules → t.Fits cs left → t = s ∨ s.Prior t

theorem Prior.asymm (h : s.Prior t) : ¬t.Prior s := by
  unfold Prior at *
  omega

theorem Longest.length_le {left : List Char} (h : s.Longest rules cs rest) (ht : t.In rules)
    (hfits : t.Fits cs left) : t.letters.length ≤ s.letters.length := by
  rcases h.first t left ht hfits with rfl | hprior
  · exact Nat.le_refl _
  · unfold Prior at hprior
    omega

theorem fold_eq_id (hs : s.rule.caseSensitive = true) : s.fold = id := funext fun _ => if_pos hs

theorem fold_eq_toLower (hs : ¬s.rule.caseSensitive = true) : s.fold = Char.toLower :=
  funext fun _ => if_neg hs

theorem eq_of_written {piece : List Char} (hs : s.rule.caseSensitive = true) (h : s.Written piece) :
    piece = s.letters := by
  rwa [Written, fold_eq_id hs, List.map_id, List.map_id] at h

theorem map_toLower_of_written {piece : List Char} (h : s.Written piece) :
    piece.map Char.toLower = s.word := by
  by_cases hs : s.rule.caseSensitive = true
  · rw [eq_of_written hs h, word]
  · rwa [Written, fold_eq_toLower hs] at h

theorem length_of_written {piece : List Char} (h : s.Written piece) :
    piece.length = s.letters.length := by
  simpa using congrArg List.length h

theorem sameLetter_iff (a c : Char) : Text.sameLetter a c = true ↔ a.toLower = c.toLower :=
  decide_eq_true_iff

theorem pattern_same (s : Spelling) (a c : Char) :
    s.pattern.same a c = true ↔ s.fold a = s.fold c := by
  by_cases h : s.rule.caseSensitive = true
  · have hsame : s.pattern.same = fun a b => decide (a = b) := if_pos h
    rw [hsame, fold_eq_id h]
    exact decide_eq_true_iff
  · have hsame : s.pattern.same = Text.sameLetter := if_neg h
    rw [hsame, fold_eq_toLower h]
    exact sameLetter_iff a c

theorem pattern_blockedBy (s : Spelling) (rest : List Char) : s.pattern.blockedBy rest = true ↔
    s.symbol = "m" ∧ ['a', 'j'] <+: rest.map Char.toLower := by
  have haj : ['a', 'j'].map Char.toLower = ['a', 'j'] := by decide
  rw [Pattern.blockedBy, Bool.and_eq_true, Text.strip?_isSome sameLetter_iff, haj]
  exact and_congr_left' decide_eq_true_iff

theorem pattern_rest? : s.pattern.rest? cs = some rest ↔ s.Fits cs rest := by
  rw [Pattern.rest?, Option.filter_eq_some_iff, Text.strip?_eq_some s.pattern_same]
  constructor
  · rintro ⟨hfront, hfree⟩
    refine ⟨hfront, fun hm haj => ?_⟩
    simp [s.pattern_blockedBy rest |>.2 ⟨hm, haj⟩] at hfree
  · rintro ⟨hfront, hfree⟩
    refine ⟨hfront, ?_⟩
    have hb : ¬s.pattern.blockedBy rest = true :=
      fun hb => hfree (s.pattern_blockedBy rest |>.1 hb).1 (s.pattern_blockedBy rest |>.1 hb).2
    simpa using hb

/-- The spellings of a table, in its order. -/
def all (rules : List Rule) : List Spelling :=
  rules.zipIdx.flatMap fun e => e.1.symbols.zipIdx.map fun f => ⟨e.2, f.2, e.1, f.1⟩

@[simp] theorem mem_all : s ∈ all rules ↔ s.In rules := by
  simp only [all, List.mem_flatMap, List.mem_map, Prod.exists, List.mk_mem_zipIdx_iff_getElem?]
  constructor
  · rintro ⟨r, i, hr, symbol, j, hsymbol, rfl⟩
    exact ⟨hr, hsymbol⟩
  · rintro ⟨hr, hsymbol⟩
    exact ⟨s.rule, s.index, hr, s.symbol, s.place, hsymbol, rfl⟩

/-- `s` stands before `t` in the table. -/
def Earlier (s t : Spelling) : Prop := s.index < t.index ∨ s.index = t.index ∧ s.place < t.place

theorem Earlier.ne (h : s.Earlier t) : s ≠ t := by
  rintro rfl
  unfold Earlier at h
  omega

theorem all_ascending (rules : List Rule) : (all rules).Pairwise Earlier := by
  rw [all, List.pairwise_flatMap]
  constructor
  · intro e _
    rw [List.pairwise_map]
    exact (zipIdx_ascending e.1.symbols).imp fun h => .inr ⟨rfl, h⟩
  · refine (zipIdx_ascending rules).imp fun h s hs t ht => ?_
    obtain ⟨_, -, rfl⟩ := List.mem_map.1 hs
    obtain ⟨_, -, rfl⟩ := List.mem_map.1 ht
    exact .inl h

/-- The spellings of a table in the order in which they are tried. -/
def sorted (rules : List Rule) : List Spelling :=
  (all rules).mergeSort fun s t => s.pattern.before t.pattern

@[simp] theorem mem_sorted : s ∈ sorted rules ↔ s.In rules := by
  rw [sorted, List.mem_mergeSort, mem_all]

theorem map_pattern_sorted (rules : List Rule) :
    (sorted rules).map pattern = Pattern.ofRules rules := by
  have hall : (all rules).map pattern =
      rules.zipIdx.flatMap fun e => Pattern.ofRule e.2 e.1 := by
    simp only [all, List.map_flatMap, List.map_map]
    congr 1
    funext e
    conv_rhs => rw [Pattern.ofRule, ← List.zipIdx_map_fst 0 e.1.symbols, List.map_map]
    rfl
  rw [Pattern.ofRules, ← hall]
  exact List.map_mergeSort fun _ _ _ _ => rfl

theorem before_iff (p q : Pattern) : p.before q = true ↔ q.letters.length < p.letters.length ∨
    p.letters.length = q.letters.length ∧ p.priority ≤ q.priority := by
  simp [Pattern.before]

theorem sorted_prior (rules : List Rule) : (sorted rules).Pairwise Prior := by
  refine (pairwise_mergeSort_tie ?_ ?_ (all_ascending rules)).imp ?_
  · intro a b c hab hbc
    rw [before_iff] at *
    omega
  · intro a b
    rw [Bool.or_eq_true, before_iff, before_iff]
    omega
  · rintro s t ⟨hst, hts⟩
    rw [before_iff] at hst hts
    unfold Earlier at hts
    unfold Prior
    -- the letters of a spelling's pattern are its own
    have hl : ∀ s : Spelling, s.pattern.letters = s.letters := fun _ => rfl
    have hp : ∀ s : Spelling, s.pattern.priority = s.rule.priority := fun _ => rfl
    simp only [hl, hp] at hst hts
    omega

section Ties

variable {left : List Char}

def taken (s : Spelling) : Lexicon.Taken := ⟨s.symbol, s.rule.symbol, s.rule.caseSensitive⟩

theorem map_taken_all (rules : List Rule) : (all rules).map taken = Lexicon.allTaken rules := by
  simp only [all, Lexicon.allTaken, Lexicon.taken, List.map_flatMap, List.map_map]
  conv_rhs => rw [← List.zipIdx_map_fst 0 rules, List.flatMap_map]
  congr 1
  funext e
  conv_rhs => rw [← List.zipIdx_map_fst 0 e.1.symbols, List.map_map]
  rfl

/-- That two spellings are apart does not depend on which of them the table has first. -/
theorem pairwise_apart_iff : (Lexicon.allTaken rules).Pairwise Lexicon.Taken.Apart ↔
    ∀ s t : Spelling, s.In rules → t.In rules → s ≠ t → s.taken.Apart t.taken := by
  rw [← map_taken_all, List.pairwise_map]
  constructor
  · intro h s t hs ht hne
    have symm : Std.Symm fun s t : Spelling => s.taken.Apart t.taken := ⟨fun _ _ => .symm⟩
    exact h.forall (mem_all.2 hs) (mem_all.2 ht) hne
  · intro h
    refine (all_ascending rules).imp_of_mem fun {s t} hs ht hst => ?_
    exact h s t (mem_all.1 hs) (mem_all.1 ht) hst.ne

theorem apart_of_ne (hw : Lexicon.WellFormed rules) (hs : s.In rules) (ht : t.In rules)
    (hne : s ≠ t) : s.taken.Apart t.taken := pairwise_apart_iff.1 hw.apart s t hs ht hne

theorem lowercase_eq_of_fits (hs : s.Fits cs rest) (ht : t.Fits cs left)
    (hlen : s.letters.length = t.letters.length) :
    Text.lowercase s.symbol = Text.lowercase t.symbol ∧
      (s.rule.caseSensitive = true → t.rule.caseSensitive = true → s.symbol = t.symbol) := by
  obtain ⟨piece, hcs, hsw⟩ := hs.letters
  obtain ⟨piece', hcs', htw⟩ := ht.letters
  have hlen' : piece.length = piece'.length := by
    rw [length_of_written hsw, length_of_written htw, hlen]
  obtain ⟨rfl, -⟩ := List.append_inj (hcs.symm.trans hcs') hlen'
  constructor
  · refine Text.lowercase_eq_of_map_toLower ?_
    exact (map_toLower_of_written hsw).symm.trans (map_toLower_of_written htw)
  · intro hscase htcase
    have hletters := (eq_of_written hscase hsw).symm.trans (eq_of_written htcase htw)
    exact String.toList_injective hletters

/-- Of a lexicon no two spellings that are equally long fit at one place. -/
theorem eq_of_fits (hw : Lexicon.WellFormed rules) (hs : s.In rules) (ht : t.In rules)
    (hsfits : s.Fits cs rest) (htfits : t.Fits cs left)
    (hlen : s.letters.length = t.letters.length) : s = t := by
  by_contra hne
  obtain ⟨hlower, hsame⟩ := lowercase_eq_of_fits hsfits htfits hlen
  obtain ⟨hsymbol, hscase, htcase⟩ := apart_of_ne hw hs ht hne hlower
  exact hsymbol (hsame hscase htcase)

/-- Of a lexicon, what fits is the longest match unless something longer fits. -/
theorem longest_of_length_le (hw : Lexicon.WellFormed rules) (hs : s.In rules)
    (hfits : s.Fits cs rest) (hle : ∀ (t : Spelling) left, t.In rules → t.Fits cs left →
      t.letters.length ≤ s.letters.length) : s.Longest rules cs rest := by
  refine ⟨hs, hfits, fun t left ht htfits => ?_⟩
  rcases Nat.eq_or_lt_of_le (hle t left ht htfits) with hlen | hlt
  · exact .inl (eq_of_fits hw ht hs htfits hfits hlen)
  · exact .inr (.inl hlt)

end Ties

end Spelling

namespace Lexicon

variable {rules : List Rule} {lx : Lexicon} {s : Spelling} {t : Token} {cs rest : List Char}

/-- No spelling of a lexicon is empty. -/
theorem symbol_ne_empty (h : ofRules rules = .ok lx) (hs : s.In rules) : s.symbol ≠ "" :=
  ((ofRules_iff_wellFormed.1 h).1.sound s.rule (List.mem_of_getElem? hs.rule)).symbol s.symbol
    (List.mem_of_getElem? hs.symbol)

theorem letters_ne_nil (h : ofRules rules = .ok lx) (hs : s.In rules) : s.letters ≠ [] :=
  mt String.toList_eq_nil_iff.1 (symbol_ne_empty h hs)

/-- No spelling is shorter than `m`. -/
theorem length_le_of_m {t : Spelling} (h : ofRules rules = .ok lx) (hs : s.In rules)
    (hm : t.symbol = "m") : t.letters.length ≤ s.letters.length := by
  have hone : t.letters.length = 1 := by
    rw [Spelling.letters, hm]
    rfl
  rw [hone]
  exact List.length_pos_iff.2 (letters_ne_nil h hs)

theorem patterns_eq (h : ofRules rules = .ok lx) :
    lx.patterns = (Spelling.sorted rules).map Spelling.pattern := by
  obtain ⟨-, -, rfl⟩ := ofRules_eq_ok.1 h
  exact (Spelling.map_pattern_sorted rules).symm

/-- Every pattern of a lexicon is tried. -/
theorem map_val_spelledPatterns (h : ofRules rules = .ok lx) :
    lx.spelledPatterns.map (·.1) = lx.patterns := by
  have hspelled : ∀ p ∈ lx.patterns, (Pattern.spelled? p).map (·.1) = some p := by
    intro p hp
    rw [patterns_eq h] at hp
    obtain ⟨s, hs, rfl⟩ := List.mem_map.1 hp
    have hne : s.pattern.letters ≠ [] := letters_ne_nil h (Spelling.mem_sorted.1 hs)
    rw [Pattern.spelled?, dif_neg hne, Option.map_some]
  rw [spelledPatterns, List.map_filterMap, List.filterMap_congr hspelled, List.filterMap_some]

theorem next?_eq_findSome? (h : ofRules rules = .ok lx) (cs : List Char) :
    Token.next? lx.spelledPatterns cs =
      (Spelling.sorted rules).findSome? fun s => (s.pattern.rest? cs).map (s.token, ·) := by
  have hall : Token.next? lx.spelledPatterns cs =
      (lx.spelledPatterns.map (·.1)).findSome? fun p => (p.rest? cs).map (p.token, ·) := by
    rw [Token.next?, List.findSome?_map]
    rfl
  rw [hall, map_val_spelledPatterns h, patterns_eq h, List.findSome?_map]
  rfl

/-- One pass over the table, in its own order, tells whether `s` is the longest match. -/
theorem longest_iff : s.Longest rules cs rest ↔
    s ∈ Spelling.all rules ∧ s.pattern.rest? cs = some rest ∧
      ∀ t ∈ Spelling.all rules, (t.pattern.rest? cs).isSome → t = s ∨ s.Prior t := by
  simp only [Spelling.mem_all, Option.isSome_iff_exists, Spelling.pattern_rest?]
  constructor
  · rintro ⟨hs, hfits, hfirst⟩
    refine ⟨hs, hfits, ?_⟩
    rintro t ht ⟨left, hleft⟩
    exact hfirst t left ht hleft
  · rintro ⟨hs, hfits, hfirst⟩
    exact ⟨hs, hfits, fun t left ht hleft => hfirst t ht ⟨left, hleft⟩⟩

theorem stuck_iff : (∀ (s : Spelling) rest, s.In rules → ¬s.Fits cs rest) ↔
    ∀ s ∈ Spelling.all rules, s.pattern.rest? cs = none := by
  simp only [Spelling.mem_all, Option.eq_none_iff_forall_ne_some, ne_eq, Spelling.pattern_rest?]
  exact ⟨fun h s hs rest => h s rest hs, fun h s rest hs => h s hs rest⟩

/-- What is taken at a place is the longest match there. -/
theorem next?_eq_some (h : ofRules rules = .ok lx) : Token.next? lx.spelledPatterns cs = some (t, rest) ↔
    ∃ s : Spelling, s.Longest rules cs rest ∧ s.token = t := by
  rw [next?_eq_findSome? h,
    findSome?_eq_some_iff_first (fun _ _ => Spelling.Prior.asymm) (Spelling.sorted_prior rules)]
  simp only [longest_iff, Spelling.mem_sorted, Spelling.mem_all, Option.isSome_map,
    Option.map_eq_some_iff, Prod.mk.injEq]
  constructor
  · rintro ⟨s, hs, ⟨_, hrest, rfl, rfl⟩, hfirst⟩
    exact ⟨s, ⟨hs, hrest, hfirst⟩, rfl⟩
  · rintro ⟨s, ⟨hs, hrest, hfirst⟩, rfl⟩
    exact ⟨s, hs, ⟨rest, hrest, rfl, rfl⟩, hfirst⟩

/-- Nothing is taken only where nothing fits. -/
theorem next?_eq_none (h : ofRules rules = .ok lx) : Token.next? lx.spelledPatterns cs = none ↔
    ∀ (s : Spelling) rest, s.In rules → ¬s.Fits cs rest := by
  rw [next?_eq_findSome? h, List.findSome?_eq_none_iff, stuck_iff]
  simp only [Spelling.mem_sorted, Spelling.mem_all, Option.map_eq_none_iff]

end Lexicon
end ChordSymbol
