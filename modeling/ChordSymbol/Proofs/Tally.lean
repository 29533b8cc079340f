import ChordSymbol.Proofs.SlashRoutes
import Mathlib.Logic.Basic

/-! The books of a comparison. Every chord has its row and every row its outcome; a summary counts the rows
that it has been given, and summaries of two lists add up to the summary of both. -/
namespace ChordSymbol.Comparison

/-- What two answers come to: one of them may be missing, or both, and two may be equal or not. -/
inductive Outcome.Of : Option (List Int) → Option (List Int) → Outcome → Prop
  | same (xs : List Int) : Of (some xs) (some xs) same
  | different {xs ys : List Int} (h : xs ≠ ys) : Of (some xs) (some ys) different
  | interpreterOnly (xs : List Int) : Of (some xs) none interpreterOnly
  | handbookOnly (ys : List Int) : Of none (some ys) handbookOnly
  | neither : Of none none neither

theorem Outcome.of_ofAnswers (x y : Option (List Int)) : Of x y (ofAnswers x y) := by
  cases x with
  | none =>
    cases y with
    | none => exact .neither
    | some ys => exact .handbookOnly ys
  | some xs =>
    cases y with
    | none => exact .interpreterOnly xs
    | some ys =>
      by_cases h : xs = ys
      · rw [h, ofAnswers, if_pos rfl]
        exact .same ys
      · rw [ofAnswers, if_neg h]
        exact .different h

theorem Outcome.ofAnswers_eq_iff {x y : Option (List Int)} {o : Outcome} :
    ofAnswers x y = o ↔ Of x y o := by
  constructor
  · rintro rfl
    exact of_ofAnswers x y
  · rintro (xs | h | xs | ys | _)
    · exact if_pos rfl
    · exact if_neg h
    · rfl
    · rfl
    · rfl

/-- An answer or a reason, a bass beside an answer alone, and the outcome that the answers come to. -/
structure Row.Balanced (r : Row) : Prop where
  answer : Xor (r.semitones.isSome = true) (r.reason.isSome = true)
  bass : r.bass.isSome = true → r.semitones.isSome = true
  outcome : ∀ o, r.outcome = o ↔ Outcome.Of r.semitones r.handbook o

namespace Row

theorem balanced_row (i : Interpreter) (chord : String) : (row i chord).Balanced := by
  unfold row
  cases answer i chord with
  | ok c => exact ⟨.inl ⟨rfl, by simp⟩, fun _ => rfl, fun o => Outcome.ofAnswers_eq_iff⟩
  | error f => exact ⟨.inr ⟨rfl, by simp⟩, by simp, fun o => Outcome.ofAnswers_eq_iff⟩

@[simp] theorem chord_row (i : Interpreter) (chord : String) : (row i chord).chord = chord := by
  unfold row
  cases answer i chord <;> rfl

@[simp] theorem handbook_row (i : Interpreter) (chord : String) :
    (row i chord).handbook = Handbook.semitones? chord := by
  unfold row
  cases answer i chord <;> rfl

end Row

namespace Summary

instance : Add Summary where
  add s t := {
    total := s.total + t.total
    same := s.same + t.same
    different := s.different + t.different
    interpreterOnly := s.interpreterOnly + t.interpreterOnly
    handbookOnly := s.handbookOnly + t.handbookOnly
    neither := s.neither + t.neither }

variable {s t : Summary} {rs ss : List Row}

@[simp] theorem total_add (s t : Summary) : (s + t).total = s.total + t.total := rfl

@[simp] theorem count_add (s t : Summary) (o : Outcome) : (s + t).count o = s.count o + t.count o := by
  cases o <;> rfl

/-- The counts say all there is in a summary. -/
theorem ext_count (htotal : s.total = t.total) (hcount : ∀ o, s.count o = t.count o) : s = t := by
  cases s
  cases t
  rw [Summary.mk.injEq]
  exact ⟨htotal, hcount .same, hcount .different, hcount .interpreterOnly, hcount .handbookOnly,
    hcount .neither⟩

/-- One more row adds to the total and to the count of its own outcome. -/
theorem total_add_row (s : Summary) (r : Row) : (s.add r).total = s.total + 1 := by
  unfold add
  cases r.outcome <;> rfl

theorem count_add_row (s : Summary) (r : Row) (o : Outcome) :
    (s.add r).count o = s.count o + if r.outcome = o then 1 else 0 := by
  unfold add
  cases r.outcome <;> cases o <;> rfl

/-- `s` is the summary of `rs`: each row is counted, and under its own outcome. -/
structure Tallies (s : Summary) (rs : List Row) : Prop where
  total : s.total = rs.length
  count : ∀ o, s.count o = rs.countP (·.outcome = o)

theorem Tallies.zero : zero.Tallies [] := ⟨rfl, fun o => by cases o <;> rfl⟩

theorem Tallies.add_row (h : s.Tallies rs) (r : Row) : (s.add r).Tallies (rs ++ [r]) where
  total := by rw [total_add_row, h.total, List.length_append, List.length_singleton]
  count o := by
    rw [count_add_row, h.count, List.countP_append, List.countP_singleton]
    simp only [decide_eq_true_eq]

/-- The run: rows that come later are counted on top. -/
theorem Tallies.foldl_add (h : s.Tallies rs) (ss : List Row) : (ss.foldl add s).Tallies (rs ++ ss) := by
  induction ss generalizing s rs with
  | nil => simpa using h
  | cons r ss ih => simpa using ih (h.add_row r)

theorem tallies_ofRows (rs : List Row) : (ofRows rs).Tallies rs := Tallies.zero.foldl_add rs

theorem Tallies.eq (hs : s.Tallies rs) (ht : t.Tallies rs) : s = t :=
  ext_count (hs.total.trans ht.total.symm) fun o => (hs.count o).trans (ht.count o).symm

theorem Tallies.append (hs : s.Tallies rs) (ht : t.Tallies ss) : (s + t).Tallies (rs ++ ss) where
  total := by rw [total_add, hs.total, ht.total, List.length_append]
  count o := by rw [count_add, hs.count, ht.count, List.countP_append]

theorem ofRows_append (rs ss : List Row) : ofRows (rs ++ ss) = ofRows rs + ofRows ss :=
  (tallies_ofRows (rs ++ ss)).eq ((tallies_ofRows rs).append (tallies_ofRows ss))

/-- The total is shared out among the outcomes. -/
def Shared (s : Summary) : Prop :=
  s.total = s.same + s.different + s.interpreterOnly + s.handbookOnly + s.neither

theorem Shared.add_row (h : s.Shared) (r : Row) : (s.add r).Shared := by
  unfold Shared at h ⊢
  unfold add
  cases r.outcome <;> simp only [h] <;> omega

theorem Shared.foldl_add (h : s.Shared) (rs : List Row) : (rs.foldl add s).Shared := by
  induction rs generalizing s with
  | nil => exact h
  | cons r rs ih => exact ih (h.add_row r)

theorem shared_ofRows (rs : List Row) : (ofRows rs).Shared := Shared.foldl_add (s := zero) rfl rs

end Summary

/-- A comparison has a row for each chord in turn, which says what the interpreter and the handbook say of
it. A summary counts its rows, each under its own outcome, and of two lists put together it is the sum. -/
theorem rows_accounted (i : Interpreter) (chords : List String) (rs ss : List Row) :
    (rows i chords).map (·.chord) = chords ∧
    (∀ r ∈ rows i chords, r.Balanced ∧ r.Reports (i.parseSlash r.chord) ∧
      r.handbook = Handbook.semitones? r.chord) ∧
    (Summary.ofRows rs).Tallies rs ∧
    (Summary.ofRows rs).total = (Summary.ofRows rs).same + (Summary.ofRows rs).different +
      (Summary.ofRows rs).interpreterOnly + (Summary.ofRows rs).handbookOnly +
      (Summary.ofRows rs).neither ∧
    Summary.ofRows (rs ++ ss) = Summary.ofRows rs + Summary.ofRows ss := by
  refine ⟨?_, fun r hr => ?_, Summary.tallies_ofRows rs, Summary.shared_ofRows rs,
    Summary.ofRows_append rs ss⟩
  · simp [rows, Function.comp_def]
  · obtain ⟨chord, -, rfl⟩ := List.mem_map.1 hr
    rw [Row.chord_row]
    exact ⟨Row.balanced_row i chord, i.row_reports chord, Row.handbook_row i chord⟩

end ChordSymbol.Comparison
