import ChordSymbol.Proofs.LongestMatch
import Mathlib.Data.List.Forall2

/-! Suffixes cut into spellings in any way at all. Longest matches lose no such cutting where what a
spelling has beyond a shorter one is a spelling itself, or else cannot be spelled: every cutting then
has a cut wherever a longest match ends. -/
namespace ChordSymbol

/-- One of the texts starts the other. -/
def Meet (v w : List Char) : Prop := v <+: w ∨ w <+: v

instance (v w : List Char) : Decidable (Meet v w) := inferInstanceAs (Decidable (_ ∨ _))

theorem Meet.map {v w : List Char} (f : Char → Char) (h : Meet v w) : Meet (v.map f) (w.map f) :=
  Or.imp (·.map f) (·.map f) h

/-- No text that starts with `v` starts with one of `words`. -/
def Barren (words : List (List Char)) (v : List Char) : Prop := ∀ w ∈ words, ¬Meet w v

instance (words : List (List Char)) (v : List Char) : Decidable (Barren words v) :=
  inferInstanceAs (Decidable (∀ w ∈ words, _))

namespace Spelling

variable {rules : List Rule} {s : Spelling}

/-- The spellings of a table, all letters small. -/
def words (rules : List Rule) : List (List Char) := (all rules).map word

theorem word_mem_words (h : s.In rules) : s.word ∈ words rules :=
  List.mem_map.2 ⟨s, mem_all.2 h, rfl⟩

end Spelling

/-- A text cut into pieces, each of them a way to write some spelling of the table. What stands after a
piece does not matter. -/
structure Cutting (rules : List Rule) (pieces : List (List Char)) (cs : List Char) : Prop where
  whole : pieces.flatten = cs
  spelled : ∀ p ∈ pieces, ∃ s : Spelling, s.In rules ∧ s.Written p

/-- One of the pieces starts or ends after `n` characters. -/
def CutAt (pieces : List (List Char)) (n : Nat) : Prop :=
  ∃ front, front <+: pieces ∧ front.flatten.length = n

/-- Joining neighbours among `pieces` gives `joined`. -/
def Refines (pieces joined : List (List Char)) : Prop :=
  ∃ groups : List (List (List Char)), [] ∉ groups ∧ groups.flatten = pieces ∧
    groups.map List.flatten = joined

/-- The piece of text is written as a token of the table says. -/
def Token.Writes (rules : List Rule) (t : Token) (piece : List Char) : Prop :=
  ∃ s : Spelling, s.In rules ∧ s.token = t ∧ s.Written piece

namespace Token

variable {rules : List Rule} {lx : Lexicon} {t : Token} {piece : List Char}

theorem length_of_writes (h : t.Writes rules piece) : piece.length = t.symbol.toList.length := by
  obtain ⟨s, -, rfl, hw⟩ := h
  exact Spelling.length_of_written hw

theorem ne_nil_of_writes (h : Lexicon.ofRules rules = .ok lx) (ht : t.Writes rules piece) :
    piece ≠ [] := by
  obtain ⟨s, hs, rfl, hw⟩ := ht
  rw [← List.length_pos_iff, Spelling.length_of_written hw, List.length_pos_iff]
  exact Lexicon.letters_ne_nil h hs

end Token

/-- The longest matches are written one after the other. -/
theorem Munch.exists_pieces {rules : List Rule} {cs left : List Char} {ts : List Token}
    (h : Munch rules cs ts left) :
    ∃ own, own.flatten ++ left = cs ∧ List.Forall₂ (Token.Writes rules) ts own := by
  induction h with
  | stop => exact ⟨[], rfl, .nil⟩
  | @take s cs rest left ts longest _ ih =>
    obtain ⟨own, rfl, hwrites⟩ := ih
    obtain ⟨x, rfl, hx⟩ := longest.fits.letters
    exact ⟨x :: own, by simp, .cons ⟨s, longest.mem, rfl, hx⟩ hwrites⟩

/-- A table in which a longest match is never regretted. -/
structure Conclusive (rules : List Rule) : Prop where
  /-- Of what a spelling has beyond a shorter one, a spelling takes all, or some and leaves a text that
  none starts. -/
  beyond : ∀ x ∈ Spelling.words rules, ∀ y ∈ Spelling.words rules, y <+: x → y ≠ x →
    ∀ z ∈ Spelling.words rules, Meet z (x.drop y.length) → z = x.drop y.length ∨
      z <+: x.drop y.length ∧ Barren (Spelling.words rules) ((x.drop y.length).drop z.length)
  /-- The spelling `m` is held back only where nothing could follow it. -/
  guard : Barren (Spelling.words rules) ['a', 'j']

/-- What a word has beyond another is one piece of every cutting that makes a cut between them. -/
theorem Conclusive.beyond_append {rules : List Rule} {y w : List Char} (hc : Conclusive rules)
    (hx : y ++ w ∈ Spelling.words rules) (hy : y ∈ Spelling.words rules) (hw : w ≠ []) :
    ∀ z ∈ Spelling.words rules, Meet z w →
      z = w ∨ z <+: w ∧ Barren (Spelling.words rules) (w.drop z.length) := by
  have hne : y ≠ y ++ w := by simpa [eq_comm] using hw
  simpa using hc.beyond _ hx y hy (List.prefix_append y w) hne

section Refinement

variable {pieces joined : List (List Char)} {n : Nat}

theorem Refines.cutAt (h : Refines pieces joined) (hn : CutAt joined n) : CutAt pieces n := by
  obtain ⟨groups, -, rfl, rfl⟩ := h
  obtain ⟨front, ⟨back, hfront⟩, rfl⟩ := hn
  obtain ⟨gs, hs, rfl, rfl, -⟩ := List.map_eq_append_iff.1 hfront.symm
  refine ⟨gs.flatten, ⟨hs.flatten, List.flatten_append.symm⟩, ?_⟩
  rw [List.flatten_flatten]

theorem Refines.length_le (h : Refines pieces joined) : joined.length ≤ pieces.length := by
  obtain ⟨groups, hne, rfl, rfl⟩ := h
  rw [List.length_map]
  induction groups with
  | nil => simp
  | cons g groups ih =>
    have hg : 0 < g.length := List.length_pos_iff.2 fun hg => hne (hg ▸ List.mem_cons_self)
    have hgs := ih fun hmem => hne (List.mem_cons_of_mem g hmem)
    rw [List.flatten_cons, List.length_append, List.length_cons]
    omega

end Refinement

namespace Cutting

variable {rules : List Rule} {pieces : List (List Char)} {p v cs rest : List Char} {s : Spelling}

theorem nil (rules : List Rule) : Cutting rules [] [] := ⟨rfl, by simp⟩

theorem cons_iff : Cutting rules (p :: pieces) cs ↔
    (∃ s : Spelling, s.In rules ∧ s.Written p) ∧ ∃ rest, cs = p ++ rest ∧ Cutting rules pieces rest := by
  constructor
  · rintro ⟨rfl, hspelled⟩
    obtain ⟨hp, hpieces⟩ := List.forall_mem_cons.1 hspelled
    exact ⟨hp, pieces.flatten, rfl, rfl, hpieces⟩
  · rintro ⟨hp, rest, rfl, rfl, hpieces⟩
    exact ⟨rfl, List.forall_mem_cons.2 ⟨hp, hpieces⟩⟩

/-- The first piece that goes into `v` is a word that agrees with `v` as far as they go. -/
theorem exists_first (h : Cutting rules pieces (v ++ rest)) (hv : v ≠ []) :
    ∃ p others, pieces = p :: others ∧ p.map Char.toLower ∈ Spelling.words rules ∧ Meet p v := by
  cases pieces with
  | nil => exact absurd (List.append_eq_nil_iff.1 h.whole.symm).1 hv
  | cons p others =>
    obtain ⟨s, hs, hp⟩ := h.spelled p List.mem_cons_self
    refine ⟨p, others, rfl, ?_, ?_⟩
    · rw [Spelling.map_toLower_of_written hp]
      exact Spelling.word_mem_words hs
    · exact List.prefix_or_prefix_of_prefix ⟨others.flatten, h.whole⟩ (List.prefix_append v rest)

theorem not_barren (h : Cutting rules pieces (v ++ rest)) (hv : v ≠ []) :
    ¬Barren (Spelling.words rules) (v.map Char.toLower) := by
  obtain ⟨p, -, -, hp, hmeet⟩ := h.exists_first hv
  exact fun hb => hb _ hp (hmeet.map Char.toLower)

/-- What starts a cutting fits there: the guard on `m` would leave a text that cannot be cut. -/
theorem exists_fits (hc : Conclusive rules) (h : Cutting rules (p :: pieces) cs) :
    ∃ s : Spelling, s.In rules ∧ s.Written p ∧ s.Fits cs pieces.flatten := by
  obtain ⟨⟨s, hs, hp⟩, rest, rfl, hrest⟩ := cons_iff.1 h
  rw [hrest.whole]
  refine ⟨s, hs, hp, ⟨p, rfl, hp⟩, fun _ ⟨tail, haj⟩ => ?_⟩
  obtain ⟨aj, left, rfl, haj', -⟩ := List.map_eq_append_iff.1 haj.symm
  refine hrest.not_barren ?_ (haj' ▸ hc.guard)
  rintro rfl
  cases haj'

/-- A text that the table can only spell as a whole is one piece of every cutting. -/
theorem exists_first_eq (hw : v ≠ [])
    (hwhole : ∀ z ∈ Spelling.words rules, Meet z (v.map Char.toLower) → z = v.map Char.toLower ∨
      z <+: v.map Char.toLower ∧ Barren (Spelling.words rules) ((v.map Char.toLower).drop z.length))
    (h : Cutting rules pieces (v ++ rest)) :
    ∃ others, pieces = v :: others ∧ Cutting rules others rest := by
  obtain ⟨q, others, rfl, hq, hmeet⟩ := h.exists_first hw
  obtain ⟨-, left, hleft, hothers⟩ := cons_iff.1 h
  rcases hwhole _ hq (hmeet.map Char.toLower) with hall | ⟨hsome, hbarren⟩
  · have hlen : v.length = q.length := by simpa using (congrArg List.length hall).symm
    obtain ⟨rfl, rfl⟩ := List.append_inj hleft hlen
    exact ⟨others, rfl, hothers⟩
  · obtain ⟨u, rfl⟩ : q <+: v := by
      refine List.prefix_of_prefix_length_le ⟨left, hleft.symm⟩ (List.prefix_append v rest) ?_
      simpa using hsome.length_le
    rw [List.append_assoc, List.append_cancel_left_eq] at hleft
    subst hleft
    rw [List.map_append, List.drop_left] at hbarren
    have hu : u ≠ [] := by
      rintro rfl
      exact hbarren _ hq (.inr List.nil_prefix)
    exact absurd hbarren (hothers.not_barren hu)

/-- A longest match ends at a cut, whichever way the text is cut. -/
theorem exists_cut (hc : Conclusive rules) (hl : s.Longest rules cs rest)
    (h : Cutting rules (p :: pieces) cs) : ∃ front back, p :: pieces = front ++ back ∧
      front ≠ [] ∧ Cutting rules back rest := by
  obtain ⟨x, hcs, hx⟩ := hl.fits.letters
  obtain ⟨t, ht, hp, hfits⟩ := h.exists_fits hc
  obtain ⟨-, left, hleft, hpieces⟩ := cons_iff.1 h
  have hle : p.length ≤ x.length := by
    rw [Spelling.length_of_written hp, Spelling.length_of_written hx]
    exact hl.length_le ht hfits
  obtain ⟨w, rfl⟩ : p <+: x :=
    List.prefix_of_prefix_length_le ⟨left, hleft.symm⟩ ⟨rest, hcs.symm⟩ hle
  rw [hcs, List.append_assoc, List.append_cancel_left_eq] at hleft
  subst hleft
  -- `w` is what the longest match has beyond the first piece
  by_cases hw : w = []
  · subst hw
    exact ⟨[p], pieces, rfl, by simp, hpieces⟩
  · have hword : s.word = t.word ++ w.map Char.toLower := by
      rw [← Spelling.map_toLower_of_written hx, ← Spelling.map_toLower_of_written hp, List.map_append]
    have hbeyond := hc.beyond_append (hword ▸ Spelling.word_mem_words hl.mem)
      (Spelling.word_mem_words ht) (by simpa using hw)
    obtain ⟨others, rfl, hothers⟩ := hpieces.exists_first_eq hw hbeyond
    exact ⟨[p, w], others, rfl, by simp, hothers⟩

end Cutting

namespace Lexicon

variable {rules : List Rule} {lx : Lexicon} {cs left : List Char} {ts : List Token}

/-- Every cutting refines the pieces of the longest matches. -/
theorem refines_of_munch (h : ofRules rules = .ok lx) (hc : Conclusive rules)
    (hm : Munch rules cs ts left) {own pieces : List (List Char)} (hown : own.flatten ++ left = cs)
    (hwrites : List.Forall₂ (Token.Writes rules) ts own) (hpieces : Cutting rules pieces cs) :
    left = [] ∧ Refines pieces own := by
  induction hm generalizing own pieces with
  | @stop cs stuck =>
    cases hwrites
    cases pieces with
    | nil => exact ⟨hpieces.whole.symm, [], by simp, rfl, rfl⟩
    | cons p pieces =>
      obtain ⟨s, hs, -, hfits⟩ := hpieces.exists_fits hc
      exact absurd hfits (stuck s _ hs)
  | @take s cs rest left ts longest _ ih =>
    obtain ⟨x, rfl, hx⟩ := longest.fits.letters
    obtain _ | @⟨_, y, _, own, hy, hwrites⟩ := hwrites
    have hlen : y.length = x.length := by
      rw [Token.length_of_writes hy, Spelling.length_of_written hx]
      rfl
    rw [List.flatten_cons, List.append_assoc] at hown
    obtain ⟨rfl, hrest⟩ := List.append_inj hown hlen
    cases pieces with
    | nil =>
      have hempty : y = [] := (List.append_eq_nil_iff.1 hpieces.whole.symm).1
      exact absurd hempty (Token.ne_nil_of_writes h hy)
    | cons p pieces =>
      obtain ⟨front, back, heq, hne, hback⟩ := hpieces.exists_cut hc longest
      obtain ⟨hleft, groups, hgroups, hflat, hjoin⟩ := ih hrest hwrites hback
      have hfront : front.flatten = y := by
        have hwhole := hpieces.whole
        rw [heq, List.flatten_append, hback.whole] at hwhole
        exact List.append_cancel_right hwhole
      refine ⟨hleft, front :: groups, ?_, ?_, ?_⟩
      · exact fun hmem => (List.mem_cons.1 hmem).elim (fun hf => hne hf.symm) hgroups
      · rw [heq, List.flatten_cons, hflat]
      · rw [List.map_cons, hfront, hjoin]

/-- The longest matches are pieces of the text, and every cutting of it refines them. -/
theorem exists_pieces (h : ofRules rules = .ok lx) (hc : Conclusive rules)
    (hm : Munch rules cs ts left) : ∃ own, own.flatten ++ left = cs ∧
      List.Forall₂ (Token.Writes rules) ts own ∧
      ∀ pieces, Cutting rules pieces cs → left = [] ∧ Refines pieces own := by
  obtain ⟨own, hown, hwrites⟩ := hm.exists_pieces
  exact ⟨own, hown, hwrites, fun pieces => refines_of_munch h hc hm hown hwrites⟩

theorem cutting_of_writes {own : List (List Char)} (h : List.Forall₂ (Token.Writes rules) ts own) :
    Cutting rules own own.flatten := by
  induction h with
  | nil => exact .nil rules
  | cons hp _ ih =>
    obtain ⟨s, hs, -, hw⟩ := hp
    exact Cutting.cons_iff.2 ⟨⟨s, hs, hw⟩, _, List.flatten_cons, ih⟩

theorem conclusive_standard : Conclusive standard.rules where
  beyond := by decide +kernel
  guard := by decide +kernel

/-- The built-in lexicon reads a suffix whenever there is some way to cut it into spellings, and cuts
it as seldom as can be: each of its cuts is one of every other way. -/
theorem tokenize_standard_iff_cutting (text : String) :
    ((∃ ts, standard.tokenize text = .ok ts) ↔
      ∃ pieces, Cutting standard.rules pieces text.toList) ∧
    ∀ ts, standard.tokenize text = .ok ts → ∃ own, Cutting standard.rules own text.toList ∧
      List.Forall₂ (Token.Writes standard.rules) ts own ∧
      ∀ pieces, Cutting standard.rules pieces text.toList →
        (∀ n, CutAt own n → CutAt pieces n) ∧ ts.length ≤ pieces.length := by
  obtain ⟨us, left, hm⟩ := exists_munch ofRules_standard text.toList
  obtain ⟨own, hown, hwrites, hrefines⟩ := exists_pieces ofRules_standard conclusive_standard hm
  have hscan : standard.tokenize text = _ := scan_of_munch ofRules_standard hm
  have hcut (hleft : left = []) : Cutting standard.rules own text.toList := by
    rw [← hown, hleft, List.append_nil]
    exact cutting_of_writes hwrites
  by_cases hleft : left = []
  · rw [if_pos hleft] at hscan
    refine ⟨⟨fun _ => ⟨own, hcut hleft⟩, fun _ => ⟨us, hscan⟩⟩, fun ts hts => ?_⟩
    cases hscan.symm.trans hts
    refine ⟨own, hcut hleft, hwrites, fun pieces hpieces => ?_⟩
    obtain ⟨-, hrefine⟩ := hrefines pieces hpieces
    exact ⟨fun n => hrefine.cutAt, hwrites.length_eq ▸ hrefine.length_le⟩
  · rw [if_neg hleft] at hscan
    have hno (ts : List Token) : standard.tokenize text ≠ .ok ts := by simp [hscan]
    refine ⟨⟨fun ⟨ts, hts⟩ => absurd hts (hno ts), fun ⟨pieces, hpieces⟩ => ?_⟩, fun ts hts => ?_⟩
    · exact absurd (hrefines pieces hpieces).1 hleft
    · exact absurd hts (hno ts)

end Lexicon
end ChordSymbol
