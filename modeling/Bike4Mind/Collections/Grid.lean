import Mathlib.Algebra.Order.Ring.Nat
import Mathlib.Tactic.ByContra

/-! Rounding a number up and down to a grid of equal steps. -/

namespace Collections

/-- `Math.ceil(n / step) * step` -/
def gridAbove (step n : Nat) : Nat := (n + step - 1) / step * step

/-- `Math.floor(n / step) * step` -/
def gridBelow (step n : Nat) : Nat := n / step * step

section Grid
variable {step : Nat}

theorem gridBelow_le (n : Nat) : gridBelow step n ≤ n := Nat.div_mul_le_self n step

theorem le_gridAbove (positive : 0 < step) (n : Nat) : n ≤ gridAbove step n := by
  have cut := Nat.div_add_mod (n + step - 1) step
  have below := Nat.mod_lt (n + step - 1) positive
  rw [Nat.mul_comm] at cut
  unfold gridAbove
  omega

theorem gridAbove_lt (positive : 0 < step) (n : Nat) : gridAbove step n < n + step := by
  have down := Nat.div_mul_le_self (n + step - 1) step
  unfold gridAbove
  omega

theorem gridAbove_mono {a b : Nat} (order : a ≤ b) : gridAbove step a ≤ gridAbove step b := by
  unfold gridAbove
  exact Nat.mul_le_mul_right _ (Nat.div_le_div_right (by omega))

theorem dvd_gridAbove (n : Nat) : step ∣ gridAbove step n := Dvd.intro_left _ rfl

theorem gridAbove_le (positive : 0 < step) {n m : Nat} (order : n ≤ m) (point : step ∣ m) : gridAbove step n ≤ m := by
  obtain ⟨k, rfl⟩ := point
  have short : (n + step - 1) / step < k + 1 := by
    rw [Nat.div_lt_iff_lt_mul positive, Nat.succ_mul, Nat.mul_comm]
    omega
  unfold gridAbove
  rw [Nat.mul_comm step k]
  exact Nat.mul_le_mul_right _ (Nat.le_of_lt_succ short)

theorem gridAbove_moves (positive : 0 < step) {n : Nat} (moves : gridAbove step (n + 1) ≠ gridAbove step n) : step ∣ n := by
  by_contra off
  have low := le_gridAbove positive n
  have inside : n + 1 ≤ gridAbove step n := by
    rcases Nat.lt_or_eq_of_le low with less | same
    · exact less
    · exact absurd (same ▸ dvd_gridAbove n) off
  exact moves (Nat.le_antisymm (gridAbove_le positive inside (dvd_gridAbove n)) (gridAbove_mono (Nat.le_succ n)))

end Grid
end Collections
