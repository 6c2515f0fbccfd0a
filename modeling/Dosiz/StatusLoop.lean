/-
  Dosiz/StatusLoop.lean
  =====================
  **Loops that stop at the first error.**

  A loop numbers its steps; each step changes the state and returns a status, and a status
  other than 0 ends the loop.  `upTo f n i s` runs steps `i, …, i + n - 1`.  Two loops agree
  for all counts up to `n` exactly if they take the same steps where one of them gets to
  (`upTo_eq_iff`).
-/
import Mathlib.Logic.Basic

namespace StatusLoop

variable {σ : Type}

def upTo (f : Nat → σ → σ × Nat) : Nat → Nat → σ → σ × Nat
  | 0, _, s => (s, 0)
  | n + 1, i, s =>
    let r := f i s
    if r.2 ≠ 0 then r else upTo f n (i + 1) r.1

variable {f g : Nat → σ → σ × Nat}

theorem upTo_zero (i : Nat) (s : σ) : upTo f 0 i s = (s, 0) := rfl

theorem upTo_one (i : Nat) (s : σ) : upTo f 1 i s = f i s := by
  rw [upTo]
  by_cases h : (f i s).2 ≠ 0
  · rw [if_pos h]
  · rw [if_neg h, upTo]
    exact Prod.ext rfl (not_not.mp h).symm

/-- A longer run begins with the shorter one. -/
theorem upTo_add (b : Nat) : ∀ (a i : Nat) (s : σ),
    upTo f (a + b) i s =
      if (upTo f a i s).2 ≠ 0 then upTo f a i s else upTo f b (i + a) (upTo f a i s).1
  | 0, i, s => by
    rw [Nat.zero_add, upTo_zero, if_neg (not_not.mpr rfl), Nat.add_zero]
  | a + 1, i, s => by
    have hlong : a + 1 + b = a + b + 1 := by omega
    rw [hlong, upTo, upTo]
    by_cases hst : (f i s).2 ≠ 0
    · rw [if_pos hst, if_pos hst, if_pos hst]
    · have hi : i + 1 + a = i + (a + 1) := by omega
      rw [if_neg hst, if_neg hst, upTo_add b a (i + 1) (f i s).1, hi]

theorem upTo_succ (n : Nat) (s : σ) :
    upTo f (n + 1) 0 s = if (upTo f n 0 s).2 ≠ 0 then upTo f n 0 s else f n (upTo f n 0 s).1 := by
  rw [upTo_add, Nat.zero_add, upTo_one]

/-- What every step keeps the loop keeps. -/
theorem upTo_invariant {P : σ → Prop} (hstep : ∀ i s, P s → P (f i s).1) : ∀ (n i : Nat) {s : σ}, P s →
    P (upTo f n i s).1
  | 0, _, _, h => h
  | n + 1, i, s, h => by
    rw [upTo]
    by_cases hst : (f i s).2 ≠ 0
    · rw [if_pos hst]
      exact hstep i s h
    · rw [if_neg hst]
      exact upTo_invariant hstep n (i + 1) (hstep i s h)

/-- A change of the state that the steps do not see. -/
theorem upTo_commutes {φ : σ → σ} (hstep : ∀ i s, f i (φ s) = (φ (f i s).1, (f i s).2)) :
    ∀ (n i : Nat) (s : σ), upTo f n i (φ s) = (φ (upTo f n i s).1, (upTo f n i s).2)
  | 0, _, _ => rfl
  | n + 1, i, s => by
    rw [upTo, upTo, hstep]
    by_cases hst : (f i s).2 ≠ 0
    · rw [if_pos hst, if_pos hst]
    · rw [if_neg hst, if_neg hst]
      exact upTo_commutes hstep n (i + 1) (f i s).1

/-- Two loops with the same steps where they get to. -/
theorem upTo_eq {n : Nat} {s : σ}
    (h : ∀ i < n, (upTo g i 0 s).2 = 0 → f i (upTo g i 0 s).1 = g i (upTo g i 0 s).1) :
    upTo f n 0 s = upTo g n 0 s := by
  induction n with
  | zero => rfl
  | succ n ih =>
    rw [upTo_succ, upTo_succ, ih fun i hi => h i (Nat.lt_succ_of_lt hi)]
    by_cases hst : (upTo g n 0 s).2 ≠ 0
    · rw [if_pos hst, if_pos hst]
    · rw [if_neg hst, if_neg hst, h n (Nat.lt_succ_self n) (not_not.mp hst)]

theorem upTo_eq_iff (n : Nat) (s : σ) :
    (∀ k ≤ n, upTo f k 0 s = upTo g k 0 s) ↔
      ∀ i < n, (upTo g i 0 s).2 = 0 → f i (upTo g i 0 s).1 = g i (upTo g i 0 s).1 := by
  constructor
  · intro h i hi hst
    have hnext := h (i + 1) hi
    rw [upTo_succ, upTo_succ, h i (Nat.le_of_lt hi), if_neg (not_not.mpr hst), if_neg (not_not.mpr hst)] at hnext
    exact hnext
  · intro h k hk
    exact upTo_eq fun i hi => h i (Nat.lt_of_lt_of_le hi hk)

end StatusLoop
