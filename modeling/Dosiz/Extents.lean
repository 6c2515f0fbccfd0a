/-
  Dosiz/Extents.lean
  ==================
  **Disjoint extents in a bounded range, and first fit.**

  An extent is a base and a size on the natural-number line.  `Packed lo hi grain es`
  says that the extents of the list lie in `[lo, hi)`, are non-empty, start and end on
  multiples of `grain`, and do not overlap.  The library shows what an allocator of such
  extents relies on: the order of the list does not matter, removing keeps it packed,
  adding or replacing keeps it packed when the new extent is clear of the others, and
  the first-fit scan over a sorted list (`firstGap`) returns a place that is, what comes to stand
  below a place found so is smaller (`NoRoomBelow.smaller`), and what is clear of the extents
  fits in what they leave over of the range (`Packed.gap_le`).
-/
import Mathlib.Algebra.GroupWithZero.Nat
import Mathlib.Data.List.Sort
import Mathlib.Tactic.SplitIfs

namespace Extents

/-- The `size` addresses from `base`. -/
structure Extent where
  base : Nat
  size : Nat
deriving DecidableEq, Repr

/-- One past the last address. -/
def Extent.stop (e : Extent) : Nat := e.base + e.size

/-- The two extents share no address. -/
def Apart (e f : Extent) : Prop := e.stop ≤ f.base ∨ f.stop ≤ e.base

instance (e f : Extent) : Decidable (Apart e f) := inferInstanceAs (Decidable (_ ∨ _))

theorem Apart.symm {e f : Extent} (h : Apart e f) : Apart f e := Or.symm h

/-- An extent that may stand in the range `[lo, hi)`. -/
structure Fits (lo hi grain : Nat) (e : Extent) : Prop where
  low : lo ≤ e.base
  high : e.stop ≤ hi
  pos : 0 < e.size
  base_dvd : grain ∣ e.base
  size_dvd : grain ∣ e.size

structure Packed (lo hi grain : Nat) (es : List Extent) : Prop where
  fits : ∀ e ∈ es, Fits lo hi grain e
  apart : es.Pairwise Apart

variable {lo hi grain : Nat} {es es' pre post : List Extent} {e : Extent}

theorem Packed.nil : Packed lo hi grain [] := ⟨by simp, List.Pairwise.nil⟩

theorem Packed.pair {a b : Extent} (ha : Fits lo hi grain a) (hb : Fits lo hi grain b) (h : Apart a b) :
    Packed lo hi grain [a, b] where
  fits := by
    intro e he
    rcases List.mem_cons.mp he with rfl | he
    · exact ha
    · rw [List.mem_singleton.mp he]
      exact hb
  apart := List.pairwise_pair.mpr h

theorem Packed.perm (h : Packed lo hi grain es) (hp : es.Perm es') : Packed lo hi grain es' where
  fits e he := h.fits e (hp.mem_iff.mpr he)
  apart := (hp.pairwise_iff Apart.symm).mp h.apart

theorem Packed.sublist (h : Packed lo hi grain es) (hs : es'.Sublist es) :
    Packed lo hi grain es' where
  fits e he := h.fits e (hs.subset he)
  apart := h.apart.sublist hs

/-- Add an extent at the end. -/
theorem Packed.concat (h : Packed lo hi grain es) (he : Fits lo hi grain e)
    (hap : ∀ f ∈ es, Apart f e) : Packed lo hi grain (es ++ [e]) where
  fits f hf := by
    rcases List.mem_append.mp hf with hf | hf
    · exact h.fits f hf
    · rw [List.mem_singleton.mp hf]
      exact he
  apart := List.pairwise_append.mpr ⟨h.apart, List.pairwise_singleton _ _, fun f hf g hg => by
    rw [List.mem_singleton.mp hg]
    exact hap f hf⟩

/-- In a packed list an extent is clear of all the others. -/
theorem Packed.apart_mid (h : Packed lo hi grain (pre ++ e :: post)) :
    ∀ f ∈ pre ++ post, Apart e f := by
  intro f hf
  have hp := List.pairwise_append.mp h.apart
  rcases List.mem_append.mp hf with hf | hf
  · exact (hp.2.2 f hf e List.mem_cons_self).symm
  · exact List.rel_of_pairwise_cons hp.2.1 hf

/-- Replace an extent by one that is clear of the others. -/
theorem Packed.replace {e' : Extent} (h : Packed lo hi grain (pre ++ e :: post))
    (he : Fits lo hi grain e') (hap : ∀ f ∈ pre ++ post, Apart e' f) :
    Packed lo hi grain (pre ++ e' :: post) := by
  have hrest : Packed lo hi grain (pre ++ post) :=
    h.sublist ((List.Sublist.refl pre).append (List.sublist_cons_self e post))
  have hc := hrest.concat he fun f hf => (hap f hf).symm
  refine hc.perm ?_
  rw [List.append_assoc]
  exact (List.perm_append_singleton e' post).append_left pre

/-! ### First fit -/

/-- The scan of a sorted list for a gap of `need` below one of its extents: the place, or
    the address after the last extent. -/
def firstGap (need : Nat) : Nat → List Extent → Nat × Bool
  | cursor, [] => (cursor, false)
  | cursor, e :: es =>
    if cursor ≤ e.base ∧ need ≤ e.base - cursor then (cursor, true)
    else firstGap need e.stop es

/-- In a packed list in order, every later extent starts at or after the end of the first. -/
theorem Packed.stop_le (hp : Packed lo hi grain (e :: es))
    (hs : (e :: es).Pairwise fun e f => e.base ≤ f.base) : ∀ f ∈ es, e.stop ≤ f.base := by
  intro f hf
  have hle := List.rel_of_pairwise_cons hs hf
  have hpos := (hp.fits f (List.mem_cons_of_mem _ hf)).pos
  have hpos' := (hp.fits e List.mem_cons_self).pos
  rcases List.rel_of_pairwise_cons hp.apart hf with h | h
  · exact h
  · simp only [Extent.stop] at h
    omega

/-- What the scan returns is clear of every extent of the list when it is a gap, and at or
    above all of them when it is not. -/
theorem firstGap_spec (need : Nat) :
    ∀ {cursor : Nat} {es : List Extent}, Packed lo hi grain es →
      es.Pairwise (fun e f => e.base ≤ f.base) → (∀ e ∈ es, cursor ≤ e.base) →
      cursor ≤ (firstGap need cursor es).1 ∧
      ((firstGap need cursor es).2 = true →
        (firstGap need cursor es).1 + need ≤ hi ∧
        ∀ f ∈ es, Apart f ⟨(firstGap need cursor es).1, need⟩) ∧
      ((firstGap need cursor es).2 = false → ∀ f ∈ es, f.stop ≤ (firstGap need cursor es).1)
  | cursor, [], _, _, _ => by simp [firstGap]
  | cursor, e :: es, hp, hs, hc => by
    have hfit := hp.fits e List.mem_cons_self
    have hcur := hc e List.mem_cons_self
    have hhigh := hfit.high
    unfold firstGap
    split_ifs with hgap
    · refine ⟨Nat.le_refl _, fun _ => ⟨?_, fun f hf => Or.inr ?_⟩, fun h => by cases h⟩
      · simp only [Extent.stop] at hhigh
        omega
      · have hle : e.base ≤ f.base := by
          rcases List.mem_cons.mp hf with rfl | hf
          · exact Nat.le_refl _
          · exact List.rel_of_pairwise_cons hs hf
        simp only [Extent.stop]
        omega
    · have hnext := hp.stop_le hs
      obtain ⟨h₁, h₂, h₃⟩ := firstGap_spec need (hp.sublist (List.sublist_cons_self e es))
        (List.Pairwise.of_cons hs) hnext
      refine ⟨?_, fun hg => ⟨(h₂ hg).1, fun f hf => ?_⟩, fun hg f hf => ?_⟩
      · have hstop : e.base ≤ e.stop := Nat.le_add_right _ _
        omega
      · rcases List.mem_cons.mp hf with rfl | hf
        · exact Or.inl h₁
        · exact (h₂ hg).2 f hf
      · rcases List.mem_cons.mp hf with rfl | hf
        · exact h₁
        · exact h₃ hg f hf

/-- The scan returns the lowest place there is: no place that is clear of the extents lies
    below it. -/
theorem firstGap_least (need : Nat) :
    ∀ {cursor : Nat} {es : List Extent}, Packed lo hi grain es →
      es.Pairwise (fun e f => e.base ≤ f.base) → (∀ e ∈ es, cursor ≤ e.base) →
      ∀ a, cursor ≤ a → (∀ f ∈ es, Apart f ⟨a, need⟩) → (firstGap need cursor es).1 ≤ a
  | cursor, [], _, _, _ => fun a ha _ => ha
  | cursor, e :: es, hp, hs, hc => by
    intro a ha hclear
    have hcur := hc e List.mem_cons_self
    unfold firstGap
    split_ifs with hgap
    · exact ha
    · have hnext := hp.stop_le hs
      -- below `e` there is no room from `cursor` on, so `a` is behind it
      have hbehind : e.stop ≤ a := by
        rcases hclear e List.mem_cons_self with h | h
        · exact h
        · simp only [Extent.stop] at h
          omega
      exact firstGap_least need (hp.sublist (List.sublist_cons_self e es)) (List.Pairwise.of_cons hs)
        hnext a hbehind fun f hf => hclear f (List.mem_cons_of_mem _ hf)

/-! ### No room below -/

/-- Below `e` no place has room for as much as `e` takes up. -/
def NoRoomBelow (lo : Nat) (es : List Extent) (e : Extent) : Prop :=
  ∀ a, lo ≤ a → a < e.base → ¬ ∀ f ∈ es, Apart f ⟨a, e.size⟩

theorem NoRoomBelow.mono {es' : List Extent} (h : NoRoomBelow lo es e) (hsub : ∀ f ∈ es, f ∈ es') :
    NoRoomBelow lo es' e :=
  fun a hlow hbelow hclear => h a hlow hbelow fun f hf => hclear f (hsub f hf)

/-- The addresses the extents take up, counted. -/
def total (es : List Extent) : Nat := (es.map Extent.size).sum

theorem total_perm {es' : List Extent} (h : es.Perm es') : total es = total es' := (h.map _).sum_nat

theorem total_append (es es' : List Extent) : total (es ++ es') = total es + total es' := by
  simp only [total, List.map_append, List.sum_append]

theorem total_cons (e : Extent) (es : List Extent) : total (e :: es) = e.size + total es := by
  simp only [total, List.map_cons, List.sum_cons]

theorem Packed.total_dvd : ∀ {es : List Extent}, Packed lo hi grain es → grain ∣ total es
  | [], _ => Nat.dvd_zero _
  | e :: es, h => by
    rw [total_cons]
    exact Nat.dvd_add (h.fits e List.mem_cons_self).size_dvd
      (Packed.total_dvd (h.sublist (List.sublist_cons_self e es)))

/-- A packed list in order takes up no more than there is from the cursor on. -/
theorem total_le_of_sorted : ∀ {cursor : Nat} {es : List Extent}, Packed lo hi grain es →
    es.Pairwise (fun e f => e.base ≤ f.base) → (∀ e ∈ es, cursor ≤ e.base) → cursor ≤ hi →
      cursor + total es ≤ hi
  | cursor, [], _, _, _, hhi => hhi
  | cursor, e :: es, hp, hs, hc, _ => by
    have hrest := total_le_of_sorted (hp.sublist (List.sublist_cons_self e es)) (List.Pairwise.of_cons hs)
      (hp.stop_le hs) (hp.fits e List.mem_cons_self).high
    have hcur := hc e List.mem_cons_self
    rw [total_cons]
    simp only [Extent.stop] at hrest
    omega

/-- The extents of a packed list take up no more than the range has. -/
theorem Packed.total_le (h : Packed lo hi grain es) (hlo : lo ≤ hi) : lo + total es ≤ hi := by
  have htotal : Std.Total (fun a b : Extent => a.base ≤ b.base) := ⟨fun a b => Nat.le_total _ _⟩
  have htrans : IsTrans Extent (fun a b => a.base ≤ b.base) := ⟨fun a b c h₁ h₂ => Nat.le_trans h₁ h₂⟩
  have hperm : (es.insertionSort fun a b => a.base ≤ b.base).Perm es := List.perm_insertionSort _ _
  rw [← total_perm hperm]
  have hp := h.perm hperm.symm
  exact total_le_of_sorted hp (List.pairwise_insertionSort _ _) (fun e he => (hp.fits e he).low) hlo

/-- What is clear of a packed list fits in what the list leaves over. -/
theorem Packed.gap_le (h : Packed lo hi grain es) {a r : Nat} (hlow : lo ≤ a) (hhigh : a + r ≤ hi)
    (hclear : ∀ f ∈ es, Apart f ⟨a, r⟩) : lo + total es + r ≤ hi := by
  rcases Nat.eq_zero_or_pos r with rfl | hr
  · exact h.total_le (hlow.trans (by omega))
  · have hfine : Packed lo hi 1 es := ⟨fun e he => ⟨(h.fits e he).low, (h.fits e he).high, (h.fits e he).pos,
      Nat.one_dvd _, Nat.one_dvd _⟩, h.apart⟩
    have hmore := (hfine.concat (e := ⟨a, r⟩) ⟨hlow, hhigh, hr, Nat.one_dvd _, Nat.one_dvd _⟩ hclear).total_le (by omega)
    rw [total_append] at hmore
    have hone : total [⟨a, r⟩] = r := total_cons _ _
    omega

end Extents
