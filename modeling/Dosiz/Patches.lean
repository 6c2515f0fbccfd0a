/-
  Dosiz/Patches.lean
  ==================
  **An array under patches.**

  A patch puts values at a place of an array, which grows to take them: what lies between its old end and the
  place is filled.  After any patches the element at an index is that of the newest patch that covers it, and
  where none does what was there before (`getElem?_patched`).
-/
import Mathlib.Data.List.Basic
import Mathlib.Order.Lattice

namespace Patches

variable {α : Type*}

/-- Put `vs` at `pos`; no values change nothing. -/
def patch (filler : α) (data : List α) (pos : Nat) (vs : List α) : List α :=
  if vs = [] then data
  else (data ++ List.replicate (pos - data.length) filler).take pos ++ vs ++ data.drop (pos + vs.length)

/-- The array after the patches of a log, the newest at its head. -/
def patched (filler : α) (data : List α) : List (Nat × List α) → List α
  | [] => data
  | w :: log => patch filler (patched filler data log) w.1 w.2

/-- The patch covers the index. -/
def Covers (i : Nat) (w : Nat × List α) : Prop := w.1 ≤ i ∧ i < w.1 + w.2.length

instance (i : Nat) (w : Nat × List α) : Decidable (Covers i w) := inferInstanceAs (Decidable (_ ∧ _))

/-- The value of the newest patch that covers the index. -/
def lastAt (filler : α) (data : List α) (log : List (Nat × List α)) (i : Nat) : α :=
  (log.find? fun w => decide (Covers i w)).elim (data.getD i filler) fun w => w.2.getD (i - w.1) filler

/-- How far the array and its patches reach. -/
def extent (data : List α) : List (Nat × List α) → Nat
  | [] => data.length
  | w :: log => if w.2 = [] then extent data log else max (extent data log) (w.1 + w.2.length)

section Spec

variable {filler : α} {data vs : List α} {w : Nat × List α} {log : List (Nat × List α)} {pos i : Nat}

/-! ### One patch -/

@[simp] theorem patch_nil : patch filler data pos [] = data := if_pos rfl

/-- What stands before the values reaches up to them. -/
theorem length_front (data : List α) (pos : Nat) :
    ((data ++ List.replicate (pos - data.length) filler).take pos).length = pos := by
  rw [List.length_take, List.length_append, List.length_replicate]
  omega

theorem length_patch (hvs : vs ≠ []) : (patch filler data pos vs).length = max data.length (pos + vs.length) := by
  rw [patch, if_neg hvs, List.length_append, List.length_append, length_front, List.length_drop]
  omega

theorem getD_of_le (h : data.length ≤ i) : data.getD i filler = filler := by
  rw [List.getD_eq_getElem?_getD, List.getElem?_eq_none h]
  rfl

/-- Before the values the array stands as it was, or is filled. -/
theorem getElem?_front (hi : i < pos) :
    ((data ++ List.replicate (pos - data.length) filler).take pos)[i]? = some (data.getD i filler) := by
  rw [List.getElem?_take_of_lt hi]
  by_cases hin : i < data.length
  · rw [List.getElem?_append_left hin, List.getD_eq_getElem?_getD, List.getElem?_eq_getElem hin]
    rfl
  · rw [List.getElem?_append_right (Nat.le_of_not_lt hin), List.getElem?_replicate, if_pos (by omega),
      getD_of_le (Nat.le_of_not_lt hin)]

/-- An element after one patch. -/
theorem getElem?_patch (hvs : vs ≠ []) (hi : i < max data.length (pos + vs.length)) :
    (patch filler data pos vs)[i]? =
      some (if Covers i (pos, vs) then vs.getD (i - pos) filler else data.getD i filler) := by
  have hfront : ((data ++ List.replicate (pos - data.length) filler).take pos).length = pos := length_front data pos
  rw [patch, if_neg hvs]
  by_cases hbelow : i < pos
  · rw [if_neg fun h => absurd h.1 (Nat.not_le.mpr hbelow), List.append_assoc,
      List.getElem?_append_left (by omega), getElem?_front hbelow]
  · by_cases hin : i < pos + vs.length
    · have hat : i - pos < vs.length := by omega
      rw [if_pos ⟨Nat.le_of_not_lt hbelow, hin⟩, List.append_assoc, List.getElem?_append_right (by omega), hfront,
        List.getElem?_append_left hat, List.getD_eq_getElem?_getD, List.getElem?_eq_getElem hat]
      rfl
    · have hlen : i < data.length := by omega
      have hat : pos + vs.length + (i - (pos + vs.length)) = i := by omega
      rw [if_neg fun h => hin h.2, List.getElem?_append_right (by rw [List.length_append]; omega),
        List.length_append, hfront, List.getElem?_drop, hat, List.getD_eq_getElem?_getD, List.getElem?_eq_getElem hlen]
      rfl

/-! ### A log of patches -/

theorem length_patched (filler : α) (data : List α) : ∀ log, (patched filler data log).length = extent data log
  | [] => rfl
  | w :: log => by
    have ih := length_patched filler data log
    by_cases hw : w.2 = []
    · rw [patched, hw, patch_nil, extent, if_pos hw, ih]
    · rw [patched, length_patch hw, extent, if_neg hw, ih]

theorem lastAt_cons (filler : α) (data : List α) (w : Nat × List α) (log : List (Nat × List α)) (i : Nat) :
    lastAt filler data (w :: log) i = if Covers i w then w.2.getD (i - w.1) filler else lastAt filler data log i := by
  unfold lastAt
  by_cases hw : Covers i w
  · rw [List.find?_cons_of_pos (p := fun w => decide (Covers i w)) (decide_eq_true hw), if_pos hw]
    rfl
  · rw [List.find?_cons_of_neg (p := fun w => decide (Covers i w)) (by simpa using hw), if_neg hw]

/-- Beyond the array and its patches there is nothing but the filler. -/
theorem lastAt_of_le : ∀ {log : List (Nat × List α)}, extent data log ≤ i → lastAt filler data log i = filler
  | [], h => getD_of_le h
  | w :: log, h => by
    have hout : ¬ Covers i w := by
      rintro ⟨hlow, hhigh⟩
      have hne : w.2 ≠ [] := List.ne_nil_of_length_pos (by omega)
      rw [extent, if_neg hne] at h
      omega
    have hrest : extent data log ≤ i := by
      refine Nat.le_trans ?_ h
      rw [extent]
      split
      · exact Nat.le_refl _
      · exact Nat.le_max_left _ _
    rw [lastAt_cons, if_neg hout]
    exact lastAt_of_le hrest

/-- **Every element is the one patched last**, and none lies beyond the extent. -/
theorem getElem?_patched (filler : α) (data : List α) : ∀ (log : List (Nat × List α)) (i : Nat),
    (patched filler data log)[i]? = if i < extent data log then some (lastAt filler data log i) else none
  | [], i => by
    by_cases hi : i < data.length
    · rw [extent, if_pos hi, patched, List.getElem?_eq_getElem hi, lastAt, List.find?_nil, Option.elim_none,
        List.getD_eq_getElem?_getD, List.getElem?_eq_getElem hi]
      rfl
    · rw [extent, if_neg hi]
      exact List.getElem?_eq_none (Nat.le_of_not_lt hi)
  | w :: log, i => by
    have ih := getElem?_patched filler data log
    have hlen := length_patched filler data log
    by_cases hw : w.2 = []
    · have hout : ¬ Covers i w := by
        rintro ⟨hlow, hhigh⟩
        rw [hw, List.length_nil] at hhigh
        omega
      rw [patched, hw, patch_nil, extent, if_pos hw, lastAt_cons, if_neg hout]
      exact ih i
    · rw [extent, if_neg hw]
      by_cases hi : i < max (extent data log) (w.1 + w.2.length)
      · have hat : (patched filler data log).getD i filler = lastAt filler data log i := by
          rw [List.getD_eq_getElem?_getD, ih i]
          by_cases hin : i < extent data log
          · rw [if_pos hin]
            rfl
          · rw [if_neg hin, lastAt_of_le (Nat.le_of_not_lt hin)]
            rfl
        rw [if_pos hi, patched, getElem?_patch hw (by rw [hlen]; exact hi), hat, lastAt_cons]
      · rw [if_neg hi]
        refine List.getElem?_eq_none ?_
        rw [patched, length_patch hw, hlen]
        exact Nat.le_of_not_lt hi

end Spec

end Patches
