/-
  Dosiz/CellMoves.lean
  ====================
  **Moving cells of an array within itself.**

  A loop that sets cell after cell to what another cell holds at that moment is a simultaneous copy as long as it
  comes to no cell whose source it has already overwritten (`moveAll_of_fresh`).
-/
import Mathlib.Data.List.Nodup
import Mathlib.Logic.Function.Basic

namespace CellMoves

variable {κ V : Type*} [DecidableEq κ]

/-- Set the cells of the list, one after the other, to what their sources hold. -/
def moveAll (src : κ → κ) (s : κ → V) (ks : List κ) : κ → V :=
  ks.foldl (fun s k => Function.update s k (s (src k))) s

/-- Set the cells of the list to `v`. -/
def fillAll (v : V) (s : κ → V) (ks : List κ) : κ → V := ks.foldl (fun s k => Function.update s k v) s

variable {src : κ → κ} {s : κ → V} {ks : List κ} {k : κ} {v : V}

theorem moveAll_of_notMem (h : k ∉ ks) : moveAll src s ks k = s k := by
  induction ks generalizing s with
  | nil => rfl
  | cons j ks ih =>
    obtain ⟨hj, hks⟩ := not_or.mp (mt List.mem_cons.mpr h)
    exact (ih hks).trans (Function.update_of_ne hj _ _)

/-- No source has been overwritten when the loop comes to it, so each cell gets what its source held at first. -/
theorem moveAll_of_fresh (hnodup : ks.Nodup) (hfresh : ks.Pairwise fun a b => src b ≠ a) (h : k ∈ ks) :
    moveAll src s ks k = s (src k) := by
  induction ks generalizing s with
  | nil => cases h
  | cons j ks ih =>
    obtain ⟨hj, hnodup⟩ := List.nodup_cons.mp hnodup
    obtain ⟨hsrc, hfresh⟩ := List.pairwise_cons.mp hfresh
    rcases List.mem_cons.mp h with rfl | hks
    · exact (moveAll_of_notMem hj).trans (Function.update_self _ _ _)
    · exact (ih hnodup hfresh hks).trans (Function.update_of_ne (hsrc k hks) _ _)

theorem fillAll_of_notMem (h : k ∉ ks) : fillAll v s ks k = s k := by
  induction ks generalizing s with
  | nil => rfl
  | cons j ks ih =>
    obtain ⟨hj, hks⟩ := not_or.mp (mt List.mem_cons.mpr h)
    exact (ih hks).trans (Function.update_of_ne hj _ _)

theorem fillAll_of_mem (h : k ∈ ks) : fillAll v s ks k = v := by
  induction ks generalizing s with
  | nil => cases h
  | cons j ks ih =>
    by_cases hks : k ∈ ks
    · exact ih hks
    · obtain rfl : k = j := (List.mem_cons.mp h).resolve_right hks
      exact (fillAll_of_notMem hks).trans (Function.update_self _ _ _)

end CellMoves
