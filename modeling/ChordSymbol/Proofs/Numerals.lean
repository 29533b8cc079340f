import ChordSymbol.Document.Value
import ChordSymbol.Text.Decimal

/-! Whole numbers written in base ten and read back. -/
namespace ChordSymbol

namespace Text

/-- One more digit behind others. -/
theorem magnitude?_concat {cs : List Char} {k d : Nat} (h : magnitude? 10 cs = some k) (hd : d < 10) :
    magnitude? 10 (cs ++ [Nat.digitChar d]) = some (k * 10 + d) := by
  have hdigit : (hexValue? (Nat.digitChar d)).filter (· < 10) = some d := by
    revert d
    decide
  unfold magnitude? at h ⊢
  split at h
  · cases h
  · rw [if_neg (by simp), List.foldl_append, h]
    simp [hdigit]

theorem magnitude?_digitChar : ∀ d < 10, magnitude? 10 [Nat.digitChar d] = some d := by decide

theorem magnitude?_toDigits (n : Nat) : magnitude? 10 (Nat.toDigits 10 n) = some n := by
  induction n using Nat.strongRecOn with
  | ind n ih =>
    rw [Nat.toDigits_eq_if (by decide)]
    split
    · next h => exact magnitude?_digitChar n h
    · next h =>
      rw [magnitude?_concat (ih (n / 10) (by omega)) (Nat.mod_lt n (by decide))]
      congr 1
      omega

end Text

namespace Decimal

theorem digitChar_ne_zero : ∀ d < 10, d ≠ 0 → Nat.digitChar d ≠ '0' := by decide

/-- Only zero itself starts with a zero. -/
theorem exists_head_toDigits {n : Nat} (hn : n ≠ 0) :
    ∃ c cs, Nat.toDigits 10 n = c :: cs ∧ c ≠ '0' := by
  induction n using Nat.strongRecOn with
  | ind n ih =>
    rw [Nat.toDigits_eq_if (by decide)]
    split
    · next h => exact ⟨_, [], rfl, digitChar_ne_zero n h hn⟩
    · next h =>
      obtain ⟨c, cs, hcs, hc⟩ := ih (n / 10) (by omega) (by omega)
      exact ⟨c, cs ++ _, by rw [hcs]; rfl, hc⟩

end Decimal

namespace Document

namespace Whole

/-- A whole number that has a sign only below zero. -/
def ofInt (i : Int) : Whole := ⟨i < 0, i.natAbs⟩

theorem toInt_ofInt (i : Int) : (ofInt i).toInt = i := by
  simp only [toInt, ofInt, decide_eq_true_eq]
  split <;> omega

theorem natural?_ofInt (n : Nat) : (ofInt n).natural? = some n := by
  have hnot : ¬((n : Int) < 0) := by omega
  simp [natural?, ofInt, hnot]

theorem fits_ofInt {bits : Nat} {i : Int} (hlow : -(Nat.pow 2 (bits - 1) : Nat) ≤ i)
    (hhigh : i < (Nat.pow 2 bits : Nat)) : (ofInt i).fits bits = true := by
  simp only [fits, ofInt, decide_eq_true_eq]
  split
  · exact decide_eq_true (by omega)
  · exact decide_eq_true (by omega)

end Whole

namespace Plain

theorem unsigned?_toDigits (n : Nat) : unsigned? (Nat.toDigits 10 n) = some n := by
  by_cases hn : n = 0
  · subst hn
    decide
  · obtain ⟨c, cs, hcs, hc⟩ := Decimal.exists_head_toDigits hn
    rw [← Text.magnitude?_toDigits n, hcs]
    unfold unsigned?
    split <;> simp_all

theorem whole?_ofNat (n : Nat) : whole? (Decimal.ofNat n) = some ⟨false, n⟩ := by
  have hdigit : ∀ c ∈ Nat.toDigits 10 n, c.isDigit = true := fun c hc =>
    Nat.isDigit_of_mem_toDigits (by decide) (by decide) hc
  unfold whole? Decimal.ofNat
  rw [String.toList_ofList]
  -- a digit in front is no sign
  split
  · next heq =>
    rw [heq] at hdigit
    exact absurd (hdigit '-' List.mem_cons_self) (by decide)
  · next heq =>
    rw [heq] at hdigit
    exact absurd (hdigit '+' List.mem_cons_self) (by decide)
  · rw [unsigned?_toDigits]
    rfl

theorem whole?_ofInt (i : Int) : whole? (Decimal.ofInt i) = some (.ofInt i) := by
  cases i with
  | ofNat n =>
    have hnot : ¬(Int.ofNat n < 0) := by simp
    rw [Whole.ofInt, decide_eq_false hnot]
    exact whole?_ofNat n
  | negSucc n =>
    have hcons : (Decimal.ofInt (.negSucc n)).toList = '-' :: Nat.toDigits 10 (n + 1) := by
      simp [Decimal.ofInt, Decimal.ofNat]
    unfold whole?
    rw [hcons]
    change (unsigned? (Nat.toDigits 10 (n + 1))).map _ = _
    rw [unsigned?_toDigits, Whole.ofInt, decide_eq_true (Int.negSucc_lt_zero n)]
    rfl

/-- A whole number is not one of the texts that stand for something else. -/
theorem isNull_of_whole? {s : String} {n : Whole} (h : whole? s = some n) : isNull s = false := by
  have hnone : ∀ t ∈ ["", "~", "null", "Null", "NULL"], whole? t = none := by decide
  refine Bool.eq_false_iff.2 fun hnull => ?_
  have hmem : s ∈ ["", "~", "null", "Null", "NULL"] := by simpa [isNull] using hnull
  rw [hnone s hmem] at h
  cases h

theorem flag?_of_whole? {s : String} {n : Whole} (h : whole? s = some n) : flag? s = none := by
  have hnone : ∀ t ∈ ["true", "True", "TRUE", "false", "False", "FALSE"], whole? t = none := by decide
  have hnot : ∀ t ∈ ["true", "True", "TRUE", "false", "False", "FALSE"], s ≠ t := by
    rintro t ht rfl
    rw [hnone _ ht] at h
    cases h
  simp only [List.forall_mem_cons] at hnot
  simp [flag?, hnot]

end Plain

/-- A number that a word of 64 bits holds is read as itself. -/
theorem Value.ofPlain?_ofInt {i : Int} (h : (Whole.ofInt i).fits 64 = true) :
    ofPlain? (Decimal.ofInt i) = some (.whole (.ofInt i)) := by
  have hwhole := Plain.whole?_ofInt i
  have hlong : (Whole.ofInt i).fits 128 = true := Whole.fits_mono (by decide) h
  unfold ofPlain?
  rw [Plain.isNull_of_whole? hwhole, Plain.flag?_of_whole? hwhole, hwhole, Option.filter_some,
    if_pos hlong]
  simp [h]

end Document
end ChordSymbol
