/-! Numbers of semitones, which are held in 32 bits. A sum past the greatest of them goes on from the
least. -/
namespace ChordSymbol.Semitones

/-- The numbers that 32 bits hold. -/
def Held (x : Int) : Prop := -2147483648 ≤ x ∧ x ≤ 2147483647

instance (x : Int) : Decidable (Held x) := inferInstanceAs (Decidable (_ ∧ _))

def sum (x y : Int) : Int := (x + y).bmod 4294967296

theorem sum_eq {x y : Int} (h : Held (x + y)) : sum x y = x + y := by
  obtain ⟨hleast, hgreatest⟩ := h
  exact Int.bmod_eq_of_le (by omega) (by omega)

theorem held_sum (x y : Int) : Held (sum x y) := by
  have hleast := Int.le_bmod (x := x + y) (m := 4294967296) (by decide)
  have hgreatest := Int.bmod_lt (x := x + y) (m := 4294967296) (by decide)
  unfold Held sum
  omega

example : sum 2147483647 1 = -2147483648 := by decide

section Roots

variable {p q x y : Int}

/-- The pitch class of a tone above a root, whose number is a byte. The sum can only be too great, and as
what is held is no whole number of octaves, the pitch class is then wrong. -/
theorem sum_emod (hp : 0 ≤ p ∧ p ≤ 255) (hx : Held x) :
    sum p x % 12 = if Held (p + x) then (p + x) % 12 else (p + x + 8) % 12 := by
  split
  · next h => rw [sum_eq h]
  · next h =>
    have hwrapped : sum p x = p + x - 4294967296 := by
      unfold Held at h hx
      rw [sum, Int.bmod_def]
      split <;> omega
    omega

theorem sum_emod_eq_iff (hp : 0 ≤ p ∧ p ≤ 255) (hx : Held x) :
    sum p x % 12 = (p + x) % 12 ↔ Held (p + x) := by
  rw [sum_emod hp hx]
  split
  · next h => exact iff_of_true rfl h
  · next h =>
    rw [iff_false_right h]
    omega

end Roots

end ChordSymbol.Semitones
