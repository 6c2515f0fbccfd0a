/-
  Dosiz/FirstFit.lean
  ===================
  **First fit over a chain of blocks.**

  `firstFit` is the position of the first free block with room for a request.
  `AsGood xs ys` compares two chains by it: what `xs` can serve, `ys` serves at the same
  position or below.  Joining two neighbours that are free makes a chain no worse
  (`asGood_join`).  `Coalesced` says that no two neighbours are free; a coalesced chain
  with nothing allocated is one block (`coalesced_all_free`).
-/
import Dosiz.BlockChain
import Mathlib.Data.List.Chain

namespace BlockChain

variable {τ : Type*} [DecidableEq τ] {free : τ} {need p q : Nat} {b c : Block τ}
  {pre post xs ys : List (Block τ)}

/-! ### The search -/

/-- The position of the first free block of at least `need` units. -/
def firstFit (free : τ) (need : Nat) : Nat → List (Block τ) → Option Nat
  | _, [] => none
  | p, b :: bs =>
    if b.tag = free ∧ need ≤ b.size then some p else firstFit free need (p + 1 + b.size) bs

theorem firstFit_append (p : Nat) (xs ys : List (Block τ)) :
    firstFit free need p (xs ++ ys) =
      (firstFit free need p xs).or (firstFit free need (p + span xs) ys) := by
  induction xs generalizing p with
  | nil => simp [firstFit]
  | cons b xs ih =>
    have hp : p + 1 + b.size + span xs = p + span (b :: xs) := by
      rw [span_cons]
      omega
    simp only [List.cons_append, firstFit]
    by_cases h : b.tag = free ∧ need ≤ b.size
    · rw [if_pos h, if_pos h, Option.some_or]
    · rw [if_neg h, if_neg h, ih, hp]

theorem firstFit_eq_none_iff {bs : List (Block τ)} :
    firstFit free need p bs = none ↔ ∀ b ∈ bs, b.tag = free → b.size < need := by
  induction bs generalizing p with
  | nil => simp [firstFit]
  | cons b bs ih =>
    rw [firstFit]
    constructor
    · intro h
      split_ifs at h with hb
      intro d hd hfree
      rcases List.mem_cons.mp hd with rfl | hd
      · exact Nat.lt_of_not_le fun hle => hb ⟨hfree, hle⟩
      · exact ih.mp h d hd hfree
    · intro h
      have hb : ¬ (b.tag = free ∧ need ≤ b.size) := fun hx =>
        Nat.not_le.mpr (h b List.mem_cons_self hx.1) hx.2
      rw [if_neg hb]
      exact ih.mpr fun d hd => h d (List.mem_cons_of_mem _ hd)

theorem firstFit_skip (h : ∀ c ∈ pre, c.tag = free → c.size < need) (hb : b.tag = free)
    (hneed : need ≤ b.size) (p : Nat) :
    firstFit free need p (pre ++ b :: post) = some (p + span pre) := by
  rw [firstFit_append, firstFit_eq_none_iff.mpr h, Option.none_or, firstFit, if_pos ⟨hb, hneed⟩]

theorem firstFit_eq_some_iff {bs : List (Block τ)} :
    firstFit free need p bs = some q ↔ ∃ pre b post, bs = pre ++ b :: post ∧ q = p + span pre ∧
      b.tag = free ∧ need ≤ b.size ∧ ∀ c ∈ pre, c.tag = free → c.size < need := by
  constructor
  · intro h
    induction bs generalizing p with
    | nil => simp [firstFit] at h
    | cons b bs ih =>
      rw [firstFit] at h
      split_ifs at h with hb
      · obtain rfl := Option.some.inj h
        exact ⟨[], b, bs, rfl, by simp, hb.1, hb.2, by simp⟩
      · obtain ⟨pre, d, post, rfl, rfl, hd, hneed, hlow⟩ := ih h
        refine ⟨b :: pre, d, post, rfl, by simp only [span_cons]; omega, hd, hneed, ?_⟩
        intro e he hfree
        rcases List.mem_cons.mp he with rfl | he
        · exact Nat.lt_of_not_le fun hle => hb ⟨hfree, hle⟩
        · exact hlow e he hfree
  · rintro ⟨pre, b, post, rfl, rfl, hb, hneed, hlow⟩
    exact firstFit_skip hlow hb hneed p

theorem firstFit_ge {bs : List (Block τ)} (h : firstFit free need p bs = some q) : p ≤ q := by
  obtain ⟨pre, b, post, -, rfl, -⟩ := firstFit_eq_some_iff.mp h
  exact Nat.le_add_right _ _

/-! ### Comparing chains -/

/-- What `xs` can serve, `ys` can, at the same position or below. -/
def AsGood (free : τ) (xs ys : List (Block τ)) : Prop :=
  ∀ need p q, firstFit free need p xs = some q → ∃ r ≤ q, firstFit free need p ys = some r

theorem AsGood.refl (free : τ) (xs : List (Block τ)) : AsGood free xs xs :=
  fun _ _ q h => ⟨q, Nat.le_refl q, h⟩

theorem AsGood.append_left (h : AsGood free xs ys) (pre : List (Block τ)) :
    AsGood free (pre ++ xs) (pre ++ ys) := by
  intro need p q hq
  rw [firstFit_append] at hq ⊢
  cases hpre : firstFit free need p pre with
  | some r =>
    rw [hpre, Option.some_or] at hq
    exact ⟨q, Nat.le_refl q, by rw [Option.some_or, hq]⟩
  | none =>
    rw [hpre, Option.none_or] at hq
    rw [Option.none_or]
    exact h need (p + span pre) q hq

theorem asGood_join (hb : b.tag = free) (post : List (Block τ)) :
    AsGood free (b :: c :: post) (join b c :: post) := by
  intro need p q hq
  have hge := firstFit_ge hq
  have hsize : (join b c).size = b.size + 1 + c.size := rfl
  by_cases hfit : need ≤ (join b c).size
  · exact ⟨p, hge, by rw [firstFit, if_pos ⟨hb, hfit⟩]⟩
  · -- neither half fits, so the block found is a later one, where it was
    have hp : p + 1 + b.size + 1 + c.size = p + 1 + (join b c).size := by omega
    rw [firstFit, if_neg (by omega), firstFit, if_neg (by omega), hp] at hq
    exact ⟨q, Nat.le_refl q, by rw [firstFit, if_neg fun h => hfit h.2, hq]⟩

/-! ### The block after a block -/

omit [DecidableEq τ] in
theorem mem_place_start {bs : List (Block τ)} : (p, c) ∈ place p bs ↔ bs.head? = some c := by
  cases bs with
  | nil => simp [place]
  | cons b bs =>
    constructor
    · intro h
      rcases List.mem_cons.mp h with h | h
      · rw [List.head?_cons, (Prod.mk.inj h).2]
      · have hb := (place_bounds h).1
        omega
    · intro h
      rw [List.head?_cons] at h
      rw [Option.some.inj h]
      exact List.mem_cons_self

omit [DecidableEq τ] in
theorem mem_place_next : (p + span pre + 1 + b.size, c) ∈ place p (pre ++ b :: post) ↔
    post.head? = some c := by
  have hsplit : pre ++ b :: post = (pre ++ [b]) ++ post := by simp
  have hp : p + span (pre ++ [b]) = p + span pre + 1 + b.size := by
    simp only [span_append, span_cons, span_nil]
    omega
  rw [hsplit, place_append, List.mem_append, hp, ← mem_place_start (p := p + span pre + 1 + b.size)]
  constructor
  · rintro (h | h)
    · have hb := (place_bounds h).2
      omega
    · exact h
  · exact Or.inr

theorem le_resizeMost_iff {n : Nat} : n ≤ resizeMost free b post ↔
    n ≤ b.size ∨ ∃ c, post.head? = some c ∧ c.tag = free ∧ n ≤ b.size + 1 + c.size := by
  cases post with
  | nil => simp [resizeMost]
  | cons c post =>
    rw [resizeMost, List.head?_cons]
    constructor
    · intro h
      split_ifs at h with hc
      · exact Or.inr ⟨c, rfl, hc, h⟩
      · exact Or.inl h
    · rintro (h | ⟨d, hd, hfree, hle⟩)
      · have hjoin : (join b c).size = b.size + 1 + c.size := rfl
        split_ifs <;> omega
      · obtain rfl := Option.some.inj hd
        rw [if_pos hfree]
        exact hle

/-! ### Chains without free neighbours -/

/-- No two neighbours are free. -/
def Coalesced (free : τ) (bs : List (Block τ)) : Prop :=
  bs.IsChain fun b c => ¬ (b.tag = free ∧ c.tag = free)

omit [DecidableEq τ] in
theorem coalesced_all_free {bs : List (Block τ)} (h : Coalesced free bs)
    (hall : ∀ b ∈ bs, b.tag = free) : bs.length ≤ 1 := by
  cases bs with
  | nil => exact Nat.zero_le 1
  | cons b bs =>
    cases bs with
    | nil => exact Nat.le_refl 1
    | cons c bs =>
      have hno := (List.isChain_cons_cons.mp h).1
      exact absurd ⟨hall b (by simp), hall c (by simp)⟩ hno

end BlockChain
