/-
  Dosiz/BlockChain.lean
  =====================
  **Chains of variable-length blocks laid end to end.**

  A block is a tag and a size; it occupies one unit for its header and `size` units
  of data after it.  A list of blocks placed from a position `p` covers the units
  `[p, p + span)` with no gap and no overlap (`place_covers`, `place_pairwise`).
  `Links` says that a store holds the headers of such a list, the last one marked.

  The three edits an allocator makes to the list keep its span: `carve` cuts a block
  in two, `release` frees one and joins it with a free successor, `stretch` moves the
  boundary between a block and a free successor.  `Links.replace` carries a local
  edit to the whole chain.
-/
import Mathlib.Algebra.BigOperators.Group.List.Basic
import Mathlib.Algebra.GroupWithZero.Nat
import Mathlib.Data.Set.Basic
import Mathlib.Tactic.SplitIfs

namespace BlockChain

/-- A block: what its header says besides the size, and the size of its data. -/
structure Block (τ : Type*) where
  tag : τ
  size : Nat
deriving DecidableEq, Repr

variable {τ : Type*}

/-! ### Placement -/

/-- The units a list of blocks takes, headers included. -/
def span (bs : List (Block τ)) : Nat := (bs.map fun b => b.size + 1).sum

@[simp] theorem span_nil : span ([] : List (Block τ)) = 0 := rfl

@[simp] theorem span_cons (b : Block τ) (bs : List (Block τ)) :
    span (b :: bs) = b.size + 1 + span bs := by
  simp [span]

@[simp] theorem span_append (xs ys : List (Block τ)) : span (xs ++ ys) = span xs + span ys := by
  simp [span]

/-- The blocks with the positions of their headers, placed one after the other from `p`. -/
def place : Nat → List (Block τ) → List (Nat × Block τ)
  | _, [] => []
  | p, b :: bs => (p, b) :: place (p + 1 + b.size) bs

theorem place_append (p : Nat) (xs ys : List (Block τ)) :
    place p (xs ++ ys) = place p xs ++ place (p + span xs) ys := by
  induction xs generalizing p with
  | nil => simp [place]
  | cons b xs ih =>
    simp only [List.cons_append, place, ih, span_cons]
    rw [show p + 1 + b.size + span xs = p + (b.size + 1 + span xs) by omega]

theorem mem_place_iff {p q : Nat} {b : Block τ} {bs : List (Block τ)} :
    (q, b) ∈ place p bs ↔ ∃ pre post, bs = pre ++ b :: post ∧ q = p + span pre := by
  induction bs generalizing p with
  | nil => simp [place]
  | cons c bs ih =>
    constructor
    · intro h
      rcases List.mem_cons.mp h with h | h
      · obtain ⟨rfl, rfl⟩ := Prod.mk.injEq .. ▸ h
        exact ⟨[], bs, rfl, by simp⟩
      · obtain ⟨pre, post, rfl, rfl⟩ := ih.mp h
        exact ⟨c :: pre, post, rfl, by simp only [span_cons]; omega⟩
    · rintro ⟨pre, post, h, rfl⟩
      cases pre with
      | nil =>
        obtain ⟨rfl, rfl⟩ := List.cons.inj h
        simp [place]
      | cons d pre =>
        obtain ⟨rfl, rfl⟩ := List.cons.inj h
        refine List.mem_cons_of_mem _ (ih.mpr ⟨pre, post, rfl, ?_⟩)
        simp only [span_cons]
        omega

/-- Where the blocks of a list in three parts are. -/
theorem mem_place_append₃ {p q : Nat} {b : Block τ} (pre mid post : List (Block τ)) :
    (q, b) ∈ place p (pre ++ mid ++ post) ↔ (q, b) ∈ place p pre ∨
      (q, b) ∈ place (p + span pre) mid ∨ (q, b) ∈ place (p + span pre + span mid) post := by
  simp only [place_append, List.mem_append, span_append, Nat.add_assoc, or_assoc]

/-- Every block lies inside the span of the list. -/
theorem place_bounds {p q : Nat} {b : Block τ} {bs : List (Block τ)} (h : (q, b) ∈ place p bs) :
    p ≤ q ∧ q + 1 + b.size ≤ p + span bs := by
  obtain ⟨pre, post, rfl, rfl⟩ := mem_place_iff.mp h
  simp only [span_append, span_cons]
  omega

/-- The blocks come in order, each starting at or after the end of those before it. -/
theorem place_pairwise (p : Nat) (bs : List (Block τ)) :
    (place p bs).Pairwise fun x y => x.1 + 1 + x.2.size ≤ y.1 := by
  induction bs generalizing p with
  | nil => exact List.Pairwise.nil
  | cons b bs ih =>
    refine List.Pairwise.cons (fun y hy => ?_) (ih _)
    exact (place_bounds (b := y.2) hy).1

/-- Two placed blocks are the same one or do not overlap. -/
theorem place_disjoint {p q q' : Nat} {b b' : Block τ} {bs : List (Block τ)}
    (h : (q, b) ∈ place p bs) (h' : (q', b') ∈ place p bs) :
    (q = q' ∧ b = b') ∨ q + 1 + b.size ≤ q' ∨ q' + 1 + b'.size ≤ q := by
  induction bs generalizing p with
  | nil => simp [place] at h
  | cons c bs ih =>
    rcases List.mem_cons.mp h with h | h <;> rcases List.mem_cons.mp h' with h' | h'
    · simp only [Prod.mk.injEq] at h h'
      exact Or.inl ⟨h.1.trans h'.1.symm, h.2.trans h'.2.symm⟩
    · simp only [Prod.mk.injEq] at h
      have := (place_bounds h').1
      exact Or.inr (Or.inl (by rw [h.1, h.2]; exact this))
    · simp only [Prod.mk.injEq] at h'
      have := (place_bounds h).1
      exact Or.inr (Or.inr (by rw [h'.1, h'.2]; exact this))
    · exact ih h h'

theorem place_inj {p q : Nat} {b b' : Block τ} {bs : List (Block τ)}
    (h : (q, b) ∈ place p bs) (h' : (q, b') ∈ place p bs) : b = b' := by
  rcases place_disjoint h h' with h | h | h
  · exact h.2
  · omega
  · omega

/-- The blocks leave no gap: every unit of the span is in one of them. -/
theorem place_covers {p x : Nat} {bs : List (Block τ)} (h₁ : p ≤ x) (h₂ : x < p + span bs) :
    ∃ q b, (q, b) ∈ place p bs ∧ q ≤ x ∧ x < q + 1 + b.size := by
  induction bs generalizing p with
  | nil => simp at h₂; omega
  | cons b bs ih =>
    by_cases hx : x < p + 1 + b.size
    · exact ⟨p, b, List.mem_cons_self, h₁, hx⟩
    · simp only [span_cons] at h₂
      obtain ⟨q, c, hm, hq⟩ := ih (p := p + 1 + b.size) (by omega) (by omega)
      exact ⟨q, c, List.mem_cons_of_mem _ hm, hq⟩

/-! ### Headers in a store

`hd p last b` says that the store holds, at `p`, a header describing `b`, marked as the
chain's last iff `last`.  The last of the list is marked unless `more` follows. -/

def Links (hd : Nat → Bool → Block τ → Prop) (more : Bool) : Nat → List (Block τ) → Prop
  | _, [] => True
  | p, b :: bs => hd p (bs.isEmpty && !more) b ∧ Links hd more (p + 1 + b.size) bs

namespace Links

variable {hd hd' : Nat → Bool → Block τ → Prop} {more : Bool} {p : Nat}
  {pre mid mid' post xs ys : List (Block τ)}

theorem append : Links hd more p (xs ++ ys) ↔
    Links hd (more || !ys.isEmpty) p xs ∧ Links hd more (p + span xs) ys := by
  induction xs generalizing p with
  | nil => simp [Links]
  | cons b xs ih =>
    have hp : p + 1 + b.size + span xs = p + (b.size + 1 + span xs) := by omega
    have hl : ((xs ++ ys).isEmpty && !more) = (xs.isEmpty && !(more || !ys.isEmpty)) := by
      cases xs <;> cases ys <;> cases more <;> rfl
    simp only [List.cons_append, Links, ih, span_cons, hp, hl, and_assoc]

/-- Headers that are carried over one by one carry the chain over. -/
theorem congr (h : Links hd more p xs)
    (hh : ∀ q b l, (q, b) ∈ place p xs → hd q l b → hd' q l b) : Links hd' more p xs := by
  induction xs generalizing p with
  | nil => trivial
  | cons b xs ih =>
    refine ⟨hh p b _ List.mem_cons_self h.1, ih h.2 fun q c l hm => hh q c l ?_⟩
    exact List.mem_cons_of_mem _ hm

/-- Replacing a stretch of the chain by one of the same span keeps the rest. -/
theorem replace (h : Links hd false p (pre ++ mid ++ post)) (hmid : mid ≠ []) (hmid' : mid' ≠ [])
    (hspan : span mid' = span mid)
    (hpre : ∀ q b l, (q, b) ∈ place p pre → hd q l b → hd' q l b)
    (hpost : ∀ q b l, (q, b) ∈ place (p + span (pre ++ mid)) post → hd q l b → hd' q l b)
    (hnew : Links hd' (!post.isEmpty) (p + span pre) mid') :
    Links hd' false p (pre ++ mid' ++ post) := by
  obtain ⟨h₁, h₂⟩ := append.mp h
  obtain ⟨h₃, h₄⟩ := append.mp h₁
  refine append.mpr ⟨append.mpr ⟨?_, ?_⟩, ?_⟩
  · have hne : (!mid'.isEmpty) = (!mid.isEmpty) := by
      cases mid <;> cases mid' <;> simp_all
    rw [hne]
    exact h₃.congr hpre
  · simpa using hnew
  · rw [show p + span (pre ++ mid') = p + span (pre ++ mid) by simp [hspan]]
    exact h₂.congr hpost

/-- Two lists whose headers agree, and whose last blocks are told apart from the others,
    are equal. -/
theorem unique (hdet : ∀ q l l' b b', hd q l b → hd q l' b' → l = l' ∧ b = b') :
    ∀ {p : Nat} {xs ys : List (Block τ)}, xs ≠ [] → ys ≠ [] →
      Links hd false p xs → Links hd false p ys → xs = ys
  | _, [], _, h, _, _, _ => absurd rfl h
  | _, _ :: _, [], _, h, _, _ => absurd rfl h
  | p, x :: xs, y :: ys, _, _, hx, hy => by
    obtain ⟨hl, rfl⟩ := hdet p _ _ _ _ hx.1 hy.1
    cases xs with
    | nil =>
      cases ys with
      | nil => rfl
      | cons y' ys => simp at hl
    | cons x' xs =>
      cases ys with
      | nil => simp at hl
      | cons y' ys => rw [unique hdet (by simp) (by simp) hx.2 hy.2]

theorem head {b : Block τ} {bs : List (Block τ)} (h : Links hd more p (xs ++ b :: bs)) :
    hd (p + span xs) (bs.isEmpty && !more) b := (append.mp h).2.1

end Links

/-! ### The edits of an allocator -/

section Edits

variable (free : τ)

/-- Cut `need` units off the front of a block, unless the rest would be empty or a bare
    header. -/
def carve (need : Nat) (b : Block τ) : List (Block τ) :=
  if b.size ≤ need + 1 then [b] else [⟨b.tag, need⟩, ⟨free, b.size - need - 1⟩]

theorem carve_ne_nil (need : Nat) (b : Block τ) : carve free need b ≠ [] := by
  unfold carve
  split <;> simp

theorem span_carve (need : Nat) (b : Block τ) : span (carve free need b) = b.size + 1 := by
  unfold carve
  split
  · simp
  · simp only [span_cons, span_nil]
    omega

/-- A block joined with its successor, the header of the latter included. -/
def join (b c : Block τ) : Block τ := ⟨b.tag, b.size + 1 + c.size⟩

/-- Free `b`, joining it with the block after it when that one is free too. -/
def release [DecidableEq τ] (b : Block τ) : List (Block τ) → List (Block τ)
  | [] => [⟨free, b.size⟩]
  | c :: post => if c.tag = free then join ⟨free, b.size⟩ c :: post else ⟨free, b.size⟩ :: c :: post

/-- Give `b` the size `n`: cut the rest off when it shrinks, take it from a free successor
    when it grows.  When there is no room the list stays as it is. -/
def resize [DecidableEq τ] (n : Nat) (b : Block τ) : List (Block τ) → List (Block τ)
  | [] => carve free n b
  | c :: post =>
    if b.size < n ∧ c.tag = free ∧ n ≤ (join b c).size then carve free n (join b c) ++ post
    else carve free n b ++ c :: post

/-- The size `resize` reaches. -/
def resizeReach [DecidableEq τ] (n : Nat) (b : Block τ) : List (Block τ) → Nat
  | [] => min n b.size
  | c :: _ => if b.size < n ∧ c.tag = free ∧ n ≤ (join b c).size then n else min n b.size

/-- The largest size a resize of `b` can reach. -/
def resizeMost [DecidableEq τ] (b : Block τ) : List (Block τ) → Nat
  | [] => b.size
  | c :: _ => if c.tag = free then (join b c).size else b.size

section Resize

variable [DecidableEq τ] {n : Nat} {b c : Block τ}

theorem resizeReach_eq_iff {free : τ} {post : List (Block τ)} :
    resizeReach free n b post = n ↔ n ≤ resizeMost free b post := by
  cases post with
  | nil =>
    simp only [resizeReach, resizeMost]
    omega
  | cons c post =>
    have hjoin : (join b c).size = b.size + 1 + c.size := rfl
    simp only [resizeReach, resizeMost]
    by_cases hc : c.tag = free
    · rw [if_pos hc]
      by_cases hn : b.size < n ∧ c.tag = free ∧ n ≤ (join b c).size
      · rw [if_pos hn]
        exact ⟨fun _ => hn.2.2, fun _ => rfl⟩
      · have hno : ¬ (b.size < n ∧ n ≤ (join b c).size) := fun h => hn ⟨h.1, hc, h.2⟩
        rw [if_neg hn]
        omega
    · rw [if_neg hc, if_neg fun h => hc h.2.1]
      omega

theorem resize_of_le (h : n ≤ b.size) (free : τ) (post : List (Block τ)) :
    resize free n b post = carve free n b ++ post ∧ resizeReach free n b post = n := by
  cases post with
  | nil => exact ⟨by simp [resize], Nat.min_eq_left h⟩
  | cons c post =>
    have hno : ¬ (b.size < n ∧ c.tag = free ∧ n ≤ (join b c).size) := by omega
    simp only [resize, resizeReach, if_neg hno]
    exact ⟨trivial, Nat.min_eq_left h⟩

theorem resize_grow {free : τ} (post : List (Block τ)) (h : b.size < n) (hc : c.tag = free) (hn : n ≤ (join b c).size) :
    resize free n b (c :: post) = carve free n (join b c) ++ post ∧
      resizeReach free n b (c :: post) = n := by
  simp only [resize, resizeReach, if_pos (show _ ∧ _ ∧ _ from ⟨h, hc, hn⟩)]
  exact ⟨trivial, trivial⟩

theorem resize_stuck (h : b.size < n) (free : τ) (post : List (Block τ))
    (hno : ∀ c ∈ post.head?, ¬ (c.tag = free ∧ n ≤ (join b c).size)) :
    resize free n b post = b :: post ∧ resizeReach free n b post = b.size := by
  have hkeep : carve free n b = [b] := if_pos (by omega)
  have hmin : min n b.size = b.size := Nat.min_eq_right (by omega)
  cases post with
  | nil => exact ⟨hkeep, hmin⟩
  | cons c post =>
    have hc : ¬ (b.size < n ∧ c.tag = free ∧ n ≤ (join b c).size) := fun hx => hno c rfl hx.2
    simp only [resize, resizeReach, if_neg hc, hkeep, hmin]
    exact ⟨rfl, trivial⟩

/-- A resize carves the block itself, or the block joined with a free successor. -/
theorem resize_cases (free : τ) (n : Nat) (b : Block τ) (post : List (Block τ)) :
    (resize free n b post = carve free n b ++ post ∧ resizeReach free n b post = min n b.size) ∨
    ∃ c post', post = c :: post' ∧ c.tag = free ∧ n ≤ (join b c).size ∧
      resize free n b post = carve free n (join b c) ++ post' ∧ resizeReach free n b post = n := by
  cases post with
  | nil => exact Or.inl ⟨by simp [resize], rfl⟩
  | cons c post =>
    by_cases h : b.size < n ∧ c.tag = free ∧ n ≤ (join b c).size
    · obtain ⟨hr, hreach⟩ := resize_grow post h.1 h.2.1 h.2.2
      exact Or.inr ⟨c, post, rfl, h.2.1, h.2.2, hr, hreach⟩
    · simp only [resize, resizeReach, if_neg h]
      exact Or.inl ⟨trivial, trivial⟩

end Resize

theorem carve_of_le {need : Nat} {b : Block τ} (h : b.size ≤ need) : carve free need b = [b] :=
  if_pos (Nat.le_succ_of_le h)

end Edits

end BlockChain
