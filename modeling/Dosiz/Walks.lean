/-
  Dosiz/Walks.lean
  ================
  **Walks that may not end.**

  A walk goes from state to state by a partial step; it halts where the step has no
  successor.  On a finite set of states it either halts, within as many steps as there
  are states, or comes back to a state it has been in (`halts_or_repeats`), and then it
  never halts (`Repeats.goes_on`).
-/
import Mathlib.Data.Finset.Card

namespace Walks

variable {σ : Type*} {step : σ → Option σ} {s t : σ} {i j n : Nat}

/-- The state after `n` steps, where the walk gets that far. -/
def after (step : σ → Option σ) : Nat → σ → Option σ
  | 0, s => some s
  | n + 1, s => (step s).bind (after step n)

theorem after_add (n k : Nat) (s : σ) :
    after step (n + k) s = (after step n s).bind (after step k) := by
  induction n generalizing s with
  | zero => rw [Nat.zero_add, after, Option.bind_some]
  | succ n ih =>
    rw [Nat.succ_add, after, after]
    cases step s with
    | none => rfl
    | some t =>
      rw [Option.bind_some, Option.bind_some]
      exact ih t

/-- A walk that gets far gets everywhere before. -/
theorem after_isSome_of_le (h : (after step n s).isSome) (hi : i ≤ n) : (after step i s).isSome := by
  obtain ⟨k, rfl⟩ := Nat.exists_eq_add_of_le hi
  rw [after_add] at h
  cases hx : after step i s with
  | none =>
    rw [hx] at h
    cases h
  | some t => rfl

/-- What holds at the start and of every successor holds all along the walk. -/
theorem after_invariant {P : σ → Prop} (hs : P s) (hstep : ∀ u v, step u = some v → P v) :
    ∀ {n t}, after step n s = some t → P t := by
  intro n t h
  cases n with
  | zero =>
    obtain rfl := Option.some.inj h
    exact hs
  | succ n =>
    rw [after_add n 1] at h
    obtain ⟨u, -, hu⟩ := Option.bind_eq_some_iff.mp h
    obtain ⟨v, hv, hvt⟩ := Option.bind_eq_some_iff.mp hu
    obtain rfl := Option.some.inj hvt
    exact hstep u v hv

/-- A walk stops in one place. -/
theorem stop_unique (hn : after step n s = some t) (ht : step t = none) {k : Nat} {u : σ}
    (hk : after step k s = some u) (hu : step u = none) : t = u := by
  have hend : ∀ {i j : Nat} {x y : σ}, after step i s = some x → step x = none →
      after step j s = some y → i ≤ j → x = y := by
    intro i j x y hi hx hj hij
    obtain ⟨d, rfl⟩ := Nat.exists_eq_add_of_le hij
    rw [after_add, hi, Option.bind_some] at hj
    cases d with
    | zero => exact Option.some.inj hj
    | succ d =>
      rw [after, hx] at hj
      cases hj
  rcases Nat.le_total n k with h | h
  · exact hend hn ht hk h
  · exact (hend hk hu hn h).symm

/-- The walk ends. -/
def Halts (step : σ → Option σ) (s : σ) : Prop := ∃ n, after step n s = none

/-- The walk comes back to a state it has been in. -/
def Repeats (step : σ → Option σ) (s : σ) : Prop :=
  ∃ i j t, i < j ∧ after step i s = some t ∧ after step j s = some t

/-- A walk that comes back goes round for ever. -/
theorem Repeats.goes_on (h : Repeats step s) (n : Nat) : (after step n s).isSome := by
  obtain ⟨i, j, t, hij, hi, hj⟩ := h
  obtain ⟨d, rfl⟩ := Nat.exists_eq_add_of_lt hij
  have hround : after step (d + 1) t = some t := by
    rw [Nat.add_assoc, after_add, hi, Option.bind_some] at hj
    exact hj
  have hrounds : ∀ k, after step (i + k * (d + 1)) s = some t := by
    intro k
    induction k with
    | zero => rw [Nat.zero_mul, Nat.add_zero, hi]
    | succ k ih => rw [Nat.succ_mul, ← Nat.add_assoc, after_add, ih, Option.bind_some, hround]
  refine after_isSome_of_le (n := i + n * (d + 1)) ?_ ?_
  · rw [hrounds]
    rfl
  · have hn : n * 1 ≤ n * (d + 1) := Nat.mul_le_mul_left n (Nat.le_add_left 1 d)
    omega

theorem Repeats.not_halts (h : Repeats step s) : ¬ Halts step s := by
  rintro ⟨n, hn⟩
  have hsome := h.goes_on n
  rw [hn] at hsome
  cases hsome

/-- A walk that stays in a finite set halts within as many steps as the set has members, or
    comes back. -/
theorem halts_or_repeats (S : Finset σ) (hS : ∀ n t, after step n s = some t → t ∈ S) :
    after step S.card s = none ∨ Repeats step s := by
  cases hlast : after step S.card s with
  | none => exact Or.inl rfl
  | some u =>
    right
    have hsome : ∀ n ∈ Finset.range (S.card + 1), ∃ t, after step n s = some t := by
      intro n hn
      have hle := Nat.le_of_lt_succ (Finset.mem_range.mp hn)
      exact Option.isSome_iff_exists.mp (after_isSome_of_le (n := S.card) (by rw [hlast]; rfl) hle)
    have hmaps : ∀ n ∈ Finset.range (S.card + 1), (after step n s).getD s ∈ S := by
      intro n hn
      obtain ⟨t, ht⟩ := hsome n hn
      rw [ht, Option.getD_some]
      exact hS n t ht
    obtain ⟨x, hx, y, hy, hne, heq⟩ := Finset.exists_ne_map_eq_of_card_lt_of_maps_to
      (by rw [Finset.card_range]; exact Nat.lt_succ_self _) hmaps
    obtain ⟨t, ht⟩ := hsome x hx
    obtain ⟨t', ht'⟩ := hsome y hy
    rw [ht, ht', Option.getD_some, Option.getD_some] at heq
    subst heq
    rcases Nat.lt_or_gt_of_ne hne with h | h
    · exact ⟨x, y, t, h, ht, ht'⟩
    · exact ⟨y, x, t, h, ht', ht⟩

end Walks
