import ChordSymbol.Display
import ChordSymbol.Proofs.Numerals
import Mathlib.Logic.Function.Basic

/-! Numbers joined by a separator, and the joined text cut apart again. Digits and minus signs in the
separator do no harm as long as it has some other character: the first one of an occurrence tells where the
occurrence begins. -/
namespace ChordSymbol

open String.Slice.Pattern String.Slice.Pattern.Model

namespace Text

/-- No occurrence of `sep` in `front ++ behind` begins inside `front`. -/
def ClearOf (sep front behind : String) : Prop :=
  ∀ l r, front ++ behind = l ++ (sep ++ r) → ∃ m, l = front ++ m

section Split

variable {sep front behind before : String} {s : String.Slice} {p q x : s.Pos}

theorem ClearOf.not_matchesAt (h : ClearOf sep front behind)
    (hp : p.Splits before (front ++ behind)) (hq : q.Splits (before ++ front) behind)
    (hpx : p ≤ x) (hxq : x < q) : ¬MatchesAt sep x := by
  intro hmatch
  obtain ⟨l', r, hx⟩ := ForwardStringSearcher.matchesAt_iff_splits.1 hmatch
  obtain ⟨l, rfl, hl⟩ := (hp.le_iff_exists_eq_append hx).1 hpx
  obtain ⟨m, rfl⟩ := h l r hl
  refine Std.not_le.2 hxq ((hq.le_iff_exists_eq_append hx).2 ⟨m, String.append_assoc.symm, ?_⟩)
  rwa [String.append_assoc, String.append_right_inj] at hl

variable [StrictPatternModel sep]

/-- A text without an occurrence is one piece. -/
theorem ClearOf.split_eq_singleton (h : ClearOf sep front "") (hp : p.Splits before front) :
    (Model.split sep p p (Std.le_refl p)).map (·.toSlice.copy) = [front] := by
  have hp : p.Splits before (front ++ "") := by rwa [String.append_empty]
  have hend : s.endPos.Splits (before ++ front) "" := by
    rw [String.Slice.splits_endPos_iff, hp.eq_append, String.append_empty]
    exact ⟨rfl, rfl⟩
  obtain ⟨hle, hcopy⟩ := String.Slice.copy_slice_eq_iff_splits.2 ⟨before, "", hp, hend⟩
  rw [split_eq_of_not_matchesAt _ hle fun x hpx hxq => h.not_matchesAt hp hend hpx hxq, split_endPos,
    List.map_singleton, String.Slice.toSlice_subslice, hcopy]

/-- The first piece ends at the first occurrence, and the pieces of what stands behind it follow. -/
theorem ClearOf.exists_split_eq_cons (h : ClearOf sep front (sep ++ behind))
    (hp : p.Splits before (front ++ (sep ++ behind))) : ∃ r : s.Pos,
      r.Splits (before ++ front ++ sep) behind ∧
      (Model.split sep p p (Std.le_refl p)).map (·.toSlice.copy) =
        front :: (Model.split sep r r (Std.le_refl r)).map (·.toSlice.copy) := by
  have hq := hp.splits_rotateRight
  have hr := hq.splits_rotateRight
  obtain ⟨hle, hcopy⟩ := String.Slice.copy_slice_eq_iff_splits.2 ⟨before, sep ++ behind, hp, hq⟩
  have hmatch := ForwardStringSearcher.isLongestMatchAt_iff_splits.2 ⟨_, behind, hq, hr⟩
  refine ⟨_, hr, ?_⟩
  rw [split_eq_of_not_matchesAt _ hle fun x hpx hxq => h.not_matchesAt hp hq hpx hxq,
    split_eq_of_isLongestMatchAt hmatch, List.map_cons, String.Slice.toSlice_subslice, hcopy]

end Split
end Text

namespace Decimal

variable {x : Int} {c : Char}

theorem ofInt_injective : Function.Injective ofInt := by
  intro x y h
  have hwhole := Document.Plain.whole?_ofInt x
  rw [h, Document.Plain.whole?_ofInt y] at hwhole
  rw [← Document.Whole.toInt_ofInt x, ← Option.some.inj hwhole, Document.Whole.toInt_ofInt]

/-- A digit or a minus sign, which is all that numbers are written with. -/
def IsNumeral (c : Char) : Prop := c.isDigit = true ∨ c = '-'

instance (c : Char) : Decidable (IsNumeral c) := inferInstanceAs (Decidable (_ ∨ _))

theorem isNumeral_of_mem_ofNat {n : Nat} (h : c ∈ (ofNat n).toList) : IsNumeral c := by
  rw [ofNat, String.toList_ofList] at h
  exact .inl (Nat.isDigit_of_mem_toDigits (by decide) (by decide) h)

theorem isNumeral_of_mem (h : c ∈ (ofInt x).toList) : IsNumeral c := by
  cases x with
  | ofNat n => exact isNumeral_of_mem_ofNat h
  | negSucc n =>
    rw [ofInt, String.toList_append] at h
    rcases List.mem_append.1 h with h | h
    · exact .inr (List.mem_singleton.1 h)
    · exact isNumeral_of_mem_ofNat h

theorem toList_ofInt_ne_nil (x : Int) : (ofInt x).toList ≠ [] := by
  cases x with
  | ofNat n => simp [ofInt, ofNat, Nat.toDigits_ne_nil]
  | negSucc n => simp [ofInt]

section Alignment

variable {sep front : String} {as bs cs ds : List Char} {c : Char}

/-- The first character that is no numeral stands behind all numerals in front. -/
theorem length_le_of_numerals (has : ∀ a ∈ as, IsNumeral a) (hc : ¬IsNumeral c)
    (h : as ++ bs = cs ++ c :: ds) : as.length ≤ cs.length := by
  obtain ⟨es, rfl, -⟩ | ⟨es, rfl, hes⟩ := List.append_eq_append_iff.1 h
  · simp
  · obtain ⟨rfl, -⟩ | ⟨es, rfl, -⟩ := List.cons_eq_append_iff.1 hes
    · simp
    · exact absurd (has c (by simp)) hc

/-- Up to its first character that is no numeral. -/
theorem exists_numerals_append (h : ∃ c ∈ cs, ¬IsNumeral c) : ∃ as c bs,
    cs = as ++ c :: bs ∧ (∀ a ∈ as, IsNumeral a) ∧ ¬IsNumeral c := by
  obtain ⟨d, hmem, hd⟩ := h
  cases hfind : cs.find? (fun c => !decide (IsNumeral c)) with
  | none => exact absurd (List.find?_eq_none.1 hfind d hmem) (by simpa using hd)
  | some c =>
    obtain ⟨hc, as, bs, rfl, has⟩ := List.find?_eq_some_iff_append.1 hfind
    exact ⟨as, c, bs, rfl, by simpa using has, by simpa using hc⟩

theorem clearOf_empty (hsep : ∃ c ∈ sep.toList, ¬IsNumeral c) (hfront : ∀ a ∈ front.toList, IsNumeral a) :
    Text.ClearOf sep front "" := by
  intro l r h
  obtain ⟨c, hmem, hc⟩ := hsep
  rw [String.append_empty] at h
  exact absurd (hfront c (by simp [h, hmem])) hc

/-- Both occurrences have the same numerals in front of their first other character. -/
theorem clearOf_append (hsep : ∃ c ∈ sep.toList, ¬IsNumeral c)
    (hfront : ∀ a ∈ front.toList, IsNumeral a) (rest : String) :
    Text.ClearOf sep front (sep ++ rest) := by
  intro l r h
  obtain ⟨as, c, bs, hcs, has, hc⟩ := exists_numerals_append hsep
  have hlist := congrArg String.toList h
  simp only [String.toList_append] at hlist
  have hnumerals : ∀ a ∈ front.toList ++ as, IsNumeral a := fun a ha =>
    (List.mem_append.1 ha).elim (hfront a) (has a)
  have haligned : (front.toList ++ as) ++ c :: (bs ++ rest.toList) =
      (l.toList ++ as) ++ c :: (bs ++ r.toList) := by
    simpa [hcs] using hlist
  have hlength := length_le_of_numerals hnumerals hc haligned
  rw [List.length_append, List.length_append, Nat.add_le_add_iff_right] at hlength
  have hprefix := List.prefix_append front.toList (sep.toList ++ rest.toList)
  rw [hlist] at hprefix
  obtain ⟨m, hm⟩ := List.prefix_of_prefix_length_le hprefix (List.prefix_append _ _) hlength
  refine ⟨String.ofList m, String.toList_injective ?_⟩
  rw [String.toList_append, String.toList_ofList, hm]

end Alignment
end Decimal

section Joined

variable {sep : String} {c : Char} {xs ys : List Int}

theorem joinSemitones_singleton (sep : String) (x : Int) : joinSemitones sep [x] = Decimal.ofInt x :=
  String.intercalate_singleton

theorem joinSemitones_cons_cons (sep : String) (x y : Int) (ys : List Int) :
    joinSemitones sep (x :: y :: ys) = Decimal.ofInt x ++ (sep ++ joinSemitones sep (y :: ys)) := by
  rw [joinSemitones, List.map_cons, List.map_cons, String.intercalate_cons_cons, String.append_assoc]
  rfl

/-- A joined text starts with its first number. -/
theorem exists_joinSemitones_eq_append (sep : String) (x : Int) (xs : List Int) :
    ∃ tail, joinSemitones sep (x :: xs) = Decimal.ofInt x ++ tail := by
  cases xs with
  | nil => exact ⟨"", by rw [joinSemitones_singleton, String.append_empty]⟩
  | cons y ys => exact ⟨_, joinSemitones_cons_cons sep x y ys⟩

theorem isNumeral_of_head? (h : (joinSemitones sep xs).toList.head? = some c) : Decimal.IsNumeral c := by
  cases xs with
  | nil => cases h
  | cons x xs =>
    obtain ⟨tail, htail⟩ := exists_joinSemitones_eq_append sep x xs
    rw [htail, String.toList_append, List.head?_append,
      List.head?_eq_some_head (Decimal.toList_ofInt_ne_nil x), Option.some_or] at h
    exact Decimal.isNumeral_of_mem (List.mem_of_head? (List.head?_eq_some_head _ ▸ h))

theorem joinSemitones_eq_empty : joinSemitones sep xs = "" ↔ xs = [] := by
  constructor
  · intro h
    cases xs with
    | nil => rfl
    | cons x xs =>
      obtain ⟨tail, htail⟩ := exists_joinSemitones_eq_append sep x xs
      have hempty := String.append_eq_empty_iff.1 (htail.symm.trans h)
      exact absurd (String.toList_eq_nil_iff.2 hempty.1) (Decimal.toList_ofInt_ne_nil x)
  · rintro rfl
    rfl

/-- From any place on, a joined text falls into its numbers. -/
theorem modelSplit_joinSemitones [StrictPatternModel sep] (hsep : ∃ c ∈ sep.toList, ¬Decimal.IsNumeral c)
    {s : String.Slice} {p : s.Pos} {before : String} {x : Int} {xs : List Int}
    (hp : p.Splits before (joinSemitones sep (x :: xs))) :
    (Model.split sep p p (Std.le_refl p)).map (·.toSlice.copy) = (x :: xs).map Decimal.ofInt := by
  have hx : ∀ a ∈ (Decimal.ofInt x).toList, Decimal.IsNumeral a := fun _ => Decimal.isNumeral_of_mem
  induction xs generalizing x p before with
  | nil =>
    rw [joinSemitones_singleton] at hp
    exact (Decimal.clearOf_empty hsep hx).split_eq_singleton hp
  | cons y ys ih =>
    rw [joinSemitones_cons_cons] at hp
    obtain ⟨r, hr, hsplit⟩ := (Decimal.clearOf_append hsep hx _).exists_split_eq_cons hp
    rw [hsplit, ih hr fun _ => Decimal.isNumeral_of_mem]
    rfl

/-- Cut at its separator, a joined text falls into its numbers. -/
theorem split_joinSemitones (hsep : ∃ c ∈ sep.toList, ¬Decimal.IsNumeral c) (hne : xs ≠ []) :
    ((joinSemitones sep xs).split sep).toList.map (·.copy) = xs.map Decimal.ofInt := by
  obtain ⟨x, xs, rfl⟩ := List.exists_cons_of_ne_nil hne
  have hpattern : sep ≠ "" := by
    rintro rfl
    simp at hsep
  have := ForwardStringSearcher.strictPatternModel hpattern
  have := ForwardStringSearcher.lawfulToForwardSearcherModel hpattern
  have hstart := String.Slice.splits_startPos (joinSemitones sep (x :: xs)).toSlice
  rw [String.copy_toSlice] at hstart
  rw [String.split_eq_split_toSlice, String.Slice.toList_split_eq_splitToSubslice, List.map_map,
    toList_splitToSubslice_eq_modelSplit]
  exact modelSplit_joinSemitones hsep hstart

theorem joinSemitones_inj (hsep : ∃ c ∈ sep.toList, ¬Decimal.IsNumeral c) :
    joinSemitones sep xs = joinSemitones sep ys ↔ xs = ys := by
  constructor
  · intro h
    by_cases hxs : xs = []
    · rw [hxs]
      rw [joinSemitones_eq_empty.2 hxs, eq_comm, joinSemitones_eq_empty] at h
      exact h.symm
    · have hys : ys ≠ [] := by
        rwa [ne_eq, ← joinSemitones_eq_empty, ← h, joinSemitones_eq_empty]
      have hcut := split_joinSemitones hsep hys
      rw [← h, split_joinSemitones hsep hxs] at hcut
      exact (List.map_inj_right fun _ _ heq => Decimal.ofInt_injective heq).1 hcut
  · rintro rfl
    rfl

end Joined
end ChordSymbol
