/-
  Dosiz/RingQueue.lean
  ====================
  **A bounded queue, and the ring of slots that keeps one.**

  The queue is a list that takes at most `cap` elements: a push onto a full one is dropped.  A run of it neither loses
  nor repeats what it took (`run_conserves`).

  A ring of `n + 1` slots with the positions of the next element to take and of the next free slot is such a queue of
  `n` elements: one slot stays free, so that a full ring is told from an empty one.  `Ring.contents` reads the ring
  from its head, and each operation of the ring is that of the queue on the contents.
-/
import Dosiz.Transition
import Mathlib.Algebra.Group.Fin.Basic
import Mathlib.Logic.Function.Basic

namespace RingQueue

open Transition

variable {α : Type*}

/-! ### The queue -/

/-- A call of the queue with what it returned. -/
inductive Call (α : Type*) where
  | push (a : α)
  | peek (r : Option α)
  | pop (r : Option α)

def put (cap : Nat) (q : List α) (a : α) : List α := if q.length < cap then q ++ [a] else q

inductive Step (cap : Nat) : List α → Call α → List α → Prop where
  | push (q : List α) (a : α) : Step cap q (.push a) (put cap q a)
  | peek (q : List α) : Step cap q (.peek q.head?) q
  | pop (q : List α) : Step cap q (.pop q.head?) q.tail

/-- The elements a queue takes. -/
def accepted (cap : Nat) : List α → List (Call α) → List α
  | _, [] => []
  | q, .push a :: es => (if q.length < cap then [a] else []) ++ accepted cap (put cap q a) es
  | q, .peek _ :: es => accepted cap q es
  | q, .pop _ :: es => accepted cap q.tail es

def Call.popped : Call α → List α
  | .pop r => r.toList
  | _ => []

/-- The elements the pops return. -/
def popped (es : List (Call α)) : List α := es.flatMap Call.popped

theorem put_append (cap : Nat) (q : List α) (a : α) :
    q ++ (if q.length < cap then [a] else []) = put cap q a := by
  by_cases h : q.length < cap
  · rw [put, if_pos h, if_pos h]
  · rw [put, if_neg h, if_neg h, List.append_nil]

/-- A push is dropped exactly when the queue is full. -/
theorem put_eq_self_iff (cap : Nat) (q : List α) (a : α) : put cap q a = q ↔ cap ≤ q.length := by
  by_cases h : q.length < cap
  · have hne : q ++ [a] ≠ q := fun he => by simpa using congrArg List.length he
    rw [put, if_pos h]
    exact iff_of_false hne (by omega)
  · rw [put, if_neg h]
    exact iff_of_true rfl (by omega)

theorem head?_append_tail (q : List α) : q.head?.toList ++ q.tail = q := by
  cases q with
  | nil => rfl
  | cons a q => rfl

section Runs

variable {cap : Nat} {q q' : List α} {es : List (Call α)}

/-- What is in the queue and what it takes comes out in that order, each once. -/
theorem run_conserves (h : Run (Step cap) q es q') : q ++ accepted cap q es = popped es ++ q' := by
  induction h with
  | nil q => exact List.append_nil q
  | @cons q _ _ _ _ hstep _ ih =>
    cases hstep with
    | push a =>
      rw [accepted, ← List.append_assoc, put_append, ih]
      rfl
    | peek => exact ih
    | pop =>
      have hfirst : q = Call.popped (.pop q.head?) ++ q.tail := (head?_append_tail q).symm
      rw [accepted, popped, List.flatMap_cons, List.append_assoc, ← popped, ← ih, ← List.append_assoc, ← hfirst]

/-- Until the next pop the first element stays the first. -/
theorem head_kept {a : α} (h : Run (Step cap) q es q') (hpops : ∀ r, Call.pop r ∉ es) (hq : q.head? = some a) :
    q'.head? = some a := by
  induction h with
  | nil q => exact hq
  | @cons q _ _ _ _ hstep _ ih =>
    have hrest := fun r => fun hr => hpops r (List.mem_cons_of_mem _ hr)
    cases hstep with
    | push b =>
      refine ih hrest ?_
      rw [← put_append, List.head?_append, hq]
      rfl
    | peek => exact ih hrest hq
    | pop => exact absurd List.mem_cons_self (hpops q.head?)

theorem Step.of_peek {r : Option α} (h : Step cap q (.peek r) q') : r = q.head? ∧ q' = q := by
  cases h with
  | peek => exact ⟨rfl, rfl⟩

theorem Step.of_pop {r : Option α} (h : Step cap q (.pop r) q') : r = q.head? ∧ q' = q.tail := by
  cases h with
  | pop => exact ⟨rfl, rfl⟩

/-- The element a peek shows is the one the next pop takes. -/
theorem peeked_popped {es₁ es₂ es₃ : List (Call α)} {a : α} {r : Option α}
    (h : Run (Step cap) q (es₁ ++ .peek (some a) :: (es₂ ++ .pop r :: es₃)) q') (hpops : ∀ r, Call.pop r ∉ es₂) :
    r = some a := by
  obtain ⟨q₁, -, h⟩ := h.split
  cases h with
  | cons hpeek h =>
    obtain ⟨hshown, rfl⟩ := hpeek.of_peek
    obtain ⟨q₂, hkept, h⟩ := h.split
    cases h with
    | cons hpop _ => rw [hpop.of_pop.1, head_kept hkept hpops hshown.symm]

end Runs

/-! ### Positions in a ring -/

section Positions

variable {n : Nat} {i j : Fin (n + 1)}

theorem dist_next (h : i ≠ j) : (j - i).val = (j - (i + 1)).val + 1 := by
  have hne : j - i ≠ 0 := sub_ne_zero.mpr h.symm
  have hpos : (j - i).val ≠ 0 := fun h0 => hne (Fin.ext h0)
  have hpred : (j - (i + 1)).val = (j - i).val - 1 := by
    rw [← sub_sub, Fin.val_sub_one_of_ne_zero hne]
  omega

theorem dist_succ (h : j + 1 ≠ i) : (j + 1 - i).val = (j - i).val + 1 := by
  rw [dist_next h.symm, add_sub_add_right_eq_sub]

theorem dist_last (h : j + 1 = i) : (j - i).val = n := by
  rw [← h, sub_add_cancel_left]
  exact Fin.coe_neg_one

end Positions

/-! ### The ring -/

structure Ring (n : Nat) (α : Type*) where
  head : Fin (n + 1)
  tail : Fin (n + 1)
  cell : Fin (n + 1) → α

namespace Ring

variable {n : Nat}

/-- The elements of `d` slots from `i` on. -/
def walk (cell : Fin (n + 1) → α) : Fin (n + 1) → Nat → List α
  | _, 0 => []
  | i, d + 1 => cell i :: walk cell (i + 1) d

def count (r : Ring n α) : Nat := (r.tail - r.head).val

def contents (r : Ring n α) : List α := walk r.cell r.head r.count

def push (r : Ring n α) (a : α) : Ring n α :=
  if r.tail + 1 = r.head then r else { r with cell := Function.update r.cell r.tail a, tail := r.tail + 1 }

def peek (r : Ring n α) : Option α := if r.head = r.tail then none else some (r.cell r.head)

def pop (r : Ring n α) : Ring n α := if r.head = r.tail then r else { r with head := r.head + 1 }

theorem walk_length (cell : Fin (n + 1) → α) (i : Fin (n + 1)) (d : Nat) : (walk cell i d).length = d := by
  induction d generalizing i with
  | zero => rfl
  | succ d ih => exact congrArg (· + 1) (ih (i + 1))

/-- One more slot is one more element behind the others. -/
theorem walk_succ (cell : Fin (n + 1) → α) {i j : Fin (n + 1)} {d : Nat} (h : (j - i).val = d) :
    walk cell i (d + 1) = walk cell i d ++ [cell j] := by
  induction d generalizing i with
  | zero =>
    have hij : j = i := sub_eq_zero.mp (Fin.ext h)
    rw [hij]
    rfl
  | succ d ih =>
    have hne : i ≠ j := fun hij => by
      rw [hij, sub_self] at h
      exact absurd h (Nat.succ_ne_zero d).symm
    have hnext : (j - (i + 1)).val = d := by
      rw [dist_next hne] at h
      exact Nat.succ_injective h
    rw [walk, ih hnext]
    rfl

/-- A slot that the walk does not come to may be filled. -/
theorem walk_update (cell : Fin (n + 1) → α) (a : α) {i j : Fin (n + 1)} {d : Nat} (h : d ≤ (j - i).val) :
    walk (Function.update cell j a) i d = walk cell i d := by
  induction d generalizing i with
  | zero => rfl
  | succ d ih =>
    have hne : i ≠ j := fun hij => by
      rw [hij, sub_self] at h
      exact absurd h (Nat.not_succ_le_zero d)
    have hnext : d ≤ (j - (i + 1)).val := by
      rw [dist_next hne] at h
      exact Nat.le_of_succ_le_succ h
    rw [walk, walk, ih hnext, Function.update_of_ne hne]

theorem contents_length (r : Ring n α) : r.contents.length = r.count := walk_length _ _ _

theorem contents_length_le (r : Ring n α) : r.contents.length ≤ n := by
  rw [contents_length]
  exact Nat.le_of_lt_succ (r.tail - r.head).isLt

theorem contents_push (r : Ring n α) (a : α) : (r.push a).contents = put n r.contents a := by
  by_cases hfull : r.tail + 1 = r.head
  · have hcount : r.contents.length = n := r.contents_length.trans (dist_last hfull)
    rw [push, if_pos hfull, put, if_neg hcount.not_lt]
  · have hcount : (r.tail + 1 - r.head).val = r.count + 1 := dist_succ hfull
    have hroom : r.contents.length < n := by
      have hlt := (r.tail + 1 - r.head).isLt
      rw [contents_length]
      omega
    have hkept : walk (Function.update r.cell r.tail a) r.head r.count = r.contents :=
      walk_update r.cell a (Nat.le_refl r.count)
    rw [push, if_neg hfull, put, if_pos hroom]
    calc walk (Function.update r.cell r.tail a) r.head (r.tail + 1 - r.head).val
        = walk (Function.update r.cell r.tail a) r.head (r.count + 1) := by rw [hcount]
      _ = walk (Function.update r.cell r.tail a) r.head r.count ++ [Function.update r.cell r.tail a r.tail] :=
          walk_succ _ rfl
      _ = r.contents ++ [a] := by rw [hkept, Function.update_self]

theorem contents_empty {r : Ring n α} (h : r.head = r.tail) : r.contents = [] := by
  have hcount : r.count = 0 := by rw [count, h, sub_self]; rfl
  rw [contents, hcount]
  rfl

theorem contents_nonempty {r : Ring n α} (h : r.head ≠ r.tail) : r.contents = r.cell r.head :: r.pop.contents := by
  have hcount : r.count = (r.tail - (r.head + 1)).val + 1 := dist_next h
  rw [pop, if_neg h, contents, hcount]
  rfl

theorem peek_eq (r : Ring n α) : r.peek = r.contents.head? := by
  by_cases hempty : r.head = r.tail
  · rw [peek, if_pos hempty, contents_empty hempty]
    rfl
  · rw [peek, if_neg hempty, contents_nonempty hempty]
    rfl

theorem contents_pop (r : Ring n α) : r.pop.contents = r.contents.tail := by
  by_cases hempty : r.head = r.tail
  · rw [pop, if_pos hempty, contents_empty hempty]
    rfl
  · rw [contents_nonempty hempty]
    rfl

end Ring

end RingQueue
