/-
  Dosiz/AliasedStores.lean
  ========================
  **Stores through aliases.**

  A store has places, and some of its places are only names of others: `win p` is the
  place that `p` really is, and `win (win p) = win p`.  A copy loop stores `g i` at `f i`.
  If it stores at the names, what the places contain afterwards is what storing at the
  places themselves would have left, exactly if each byte that went to a name was there
  already (`stores_through_iff`).
-/
import Mathlib.Data.Set.Basic
import Mathlib.Logic.Function.Basic
import Mathlib.Tactic.Common

namespace AliasedStores

variable {P B : Type*} [DecidableEq P]

/-- Store `g i` at `f i`, for each `i` below `n`. -/
def stores (f : Nat → P) (g : Nat → B) : Nat → (P → B) → P → B
  | 0, v => v
  | n + 1, v => Function.update (stores f g n v) (f n) (g n)

variable {f : Nat → P} {g : Nat → B} {v v' : P → B} {p : P}

/-- A place where nothing is stored. -/
theorem stores_of_ne : ∀ {n : Nat}, (∀ i < n, f i ≠ p) → stores f g n v p = v p
  | 0, _ => rfl
  | n + 1, h => by
    rw [stores, Function.update_of_ne (h n (Nat.lt_succ_self n)).symm]
    exact stores_of_ne fun i hi => h i (Nat.lt_succ_of_lt hi)

/-- A place where one byte is stored. -/
theorem stores_at : ∀ {n i : Nat}, i < n → f i = p → (∀ k < n, f k = p → k = i) → stores f g n v p = g i
  | n + 1, i, hi, hf, hone => by
    rw [stores]
    by_cases hn : f n = p
    · rw [hn, Function.update_self, hone n (Nat.lt_succ_self n) hn]
    · rw [Function.update_of_ne fun h => hn h.symm]
      have hin : i < n := (Nat.lt_succ_iff_lt_or_eq.mp hi).resolve_right (by rintro rfl; exact hn hf)
      exact stores_at hin hf fun k hk => hone k (Nat.lt_succ_of_lt hk)

/-- Two loops that store at `p` at the same turns. -/
theorem stores_congr {f' : Nat → P} : ∀ {n : Nat}, (∀ i < n, f i = p ↔ f' i = p) →
    (v p = v' p ∨ ∃ i < n, f i = p) → stores f g n v p = stores f' g n v' p
  | 0, _, h => h.resolve_right fun ⟨_, hi, _⟩ => absurd hi (Nat.not_lt_zero _)
  | n + 1, hiff, h => by
    rw [stores, stores]
    by_cases hn : f n = p
    · rw [hn, (hiff n (Nat.lt_succ_self n)).mp hn, Function.update_self, Function.update_self]
    · rw [Function.update_of_ne fun h => hn h.symm,
        Function.update_of_ne fun h => hn ((hiff n (Nat.lt_succ_self n)).mpr h.symm)]
      refine stores_congr (fun i hi => hiff i (Nat.lt_succ_of_lt hi)) (h.imp_right fun ⟨i, hi, hf⟩ => ⟨i, ?_, hf⟩)
      exact (Nat.lt_succ_iff_lt_or_eq.mp hi).resolve_right (by rintro rfl; exact hn hf)

theorem stores_vals {g' : Nat → B} : ∀ {n : Nat}, (∀ i < n, g i = g' i) → stores f g n v = stores f g' n v
  | 0, _ => rfl
  | n + 1, h => by
    rw [stores, stores, stores_vals fun i hi => h i (Nat.lt_succ_of_lt hi), h n (Nat.lt_succ_self n)]

/-! ### Names -/

variable {win : P → P} {n : Nat}

/-- The names among the first `n` places of `f` are names of different places, none of them in `f`. -/
structure Aliased (win : P → P) (f : Nat → P) (n : Nat) : Prop where
  apart : ∀ i < n, ∀ k < n, win (f i) ≠ f i → f k ≠ win (f i)
  inj : ∀ i < n, ∀ k < n, win (f i) ≠ f i → win (f k) = win (f i) → k = i

/-- **Storing at names.**  On the places `L` the loop that stores at the names, from `v`, agrees with the loop
    that stores at the places, from `v'`, exactly if every byte that goes to a name is in its place
    already and `v` and `v'` agree where nothing is stored. -/
theorem stores_through_iff {L : Set P} (hL : ∀ p ∈ L, win p = p) (ha : Aliased win f n) :
    (∀ p ∈ L, stores f g n v p = stores (fun i => win (f i)) g n v' p) ↔
      (∀ i < n, win (f i) ≠ f i → win (f i) ∈ L → g i = v (win (f i))) ∧
        ∀ p ∈ L, (∀ i < n, win (f i) ≠ p) → v p = v' p := by
  have hname : ∀ i < n, win (f i) ≠ f i →
      stores f g n v (win (f i)) = v (win (f i)) ∧
        stores (fun i => win (f i)) g n v' (win (f i)) = g i := fun i hi hne =>
    ⟨stores_of_ne fun k hk => ha.apart i hi k hk hne, stores_at hi rfl fun k hk => ha.inj i hi k hk hne⟩
  have hrest : ∀ p ∈ L, (∀ i < n, win (f i) ≠ p) →
      stores f g n v p = v p ∧ stores (fun i => win (f i)) g n v' p = v' p := by
    intro p hp hno
    refine ⟨stores_of_ne fun i hi hf => hno i hi ?_, stores_of_ne hno⟩
    rw [hf, hL p hp]
  constructor
  · intro h
    refine ⟨fun i hi hne hin => ?_, fun p hp hno => ?_⟩
    · obtain ⟨hv, hg⟩ := hname i hi hne
      rw [← hg, ← h _ hin, hv]
    · obtain ⟨hv, hv'⟩ := hrest p hp hno
      rw [← hv, ← hv', h p hp]
  · rintro ⟨hg, hv⟩ p hp
    by_cases hno : ∀ i < n, win (f i) ≠ p
    · obtain ⟨h₁, h₂⟩ := hrest p hp hno
      rw [h₁, h₂, hv p hp hno]
    by_cases hin : ∃ i < n, win (f i) ≠ f i ∧ win (f i) = p
    · obtain ⟨i, hi, hne, rfl⟩ := hin
      obtain ⟨h₁, h₂⟩ := hname i hi hne
      rw [h₁, h₂, hg i hi hne hp]
    · -- what is stored at `p` is stored there under its own name
      have hown : ∀ i < n, f i = p ↔ win (f i) = p := by
        intro i hi
        constructor
        · rintro rfl
          exact hL _ hp
        · intro hw
          by_contra hne
          exact hin ⟨i, hi, fun h => hne (h.symm.trans hw), hw⟩
      refine stores_congr hown (.inr ?_)
      simp only [not_forall, not_not, exists_prop] at hno
      obtain ⟨i, hi, hw⟩ := hno
      exact ⟨i, hi, (hown i hi).mpr hw⟩

end AliasedStores
