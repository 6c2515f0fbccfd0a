/-
  Dosiz/Rescale.lean
  ==================
  **Scaling to another grid and back, with truncation.**

  A position `d` on a grid of `r` steps is scaled to one of `n` steps and back.  It never comes back greater, it comes
  back as it was exactly when the other grid has a point for it, and what lies beyond the grid stays beyond it.
-/
import Mathlib.Data.Nat.Basic

namespace Rescale

/-- From a grid of `r` steps to one of `n`. -/
def scale (r n d : Nat) : Nat := d * n / r

variable {r n d : Nat}

theorem scale_mul_le (r n d : Nat) : scale r n d * r ≤ d * n := Nat.div_mul_le_self _ _

theorem scale_back_le : scale n r (scale r n d) ≤ d := by
  refine Nat.div_le_of_le_mul ?_
  rw [Nat.mul_comm n d]
  exact scale_mul_le r n d

/-- A position comes back exactly when the other grid has a point for it. -/
theorem scale_back_eq_iff (hn : 0 < n) : scale n r (scale r n d) = d ↔ r ∣ d * n := by
  constructor
  · intro h
    have hle : d * n ≤ scale r n d * r := (Nat.le_div_iff_mul_le hn).mp (Nat.le_of_eq h.symm)
    exact ⟨scale r n d, by rw [Nat.mul_comm r]; exact Nat.le_antisymm hle (scale_mul_le r n d)⟩
  · intro h
    rw [scale, scale, Nat.div_mul_cancel h]
    exact Nat.mul_div_cancel d hn

/-- Beyond the grid. -/
theorem le_scale_back (hn : 0 < n) (hr : 0 < r) (h : r ≤ d) : r ≤ scale n r (scale r n d) := by
  have hend : n ≤ scale r n d := by
    refine (Nat.le_div_iff_mul_le hr).mpr ?_
    rw [Nat.mul_comm]
    exact Nat.mul_le_mul_right n h
  refine (Nat.le_div_iff_mul_le hn).mpr ?_
  rw [Nat.mul_comm]
  exact Nat.mul_le_mul_right r hend

end Rescale
