/-
  Dosiz/PaperRoll.lean
  ====================
  **An endless roll of paper behind a window.**

  A teletype prints on a roll that only grows; a screen of `h` rows and `w` columns shows the part of it
  from `top` on.  `Shows` relates the two: the grid is the window's part of the roll, and the paper below is
  blank.  Each thing a terminal does to its grid (put a glyph, move its cursor, go to the next row,
  scroll) has a lemma that says which movement on the roll it is.
-/
import Mathlib.Logic.Function.Basic

namespace PaperRoll

variable {α : Type*}

/-- The paper, the line at the top of the window, and the print head within the window. -/
structure Roll (α : Type*) where
  cell : Nat → Nat → α
  top : Nat
  row : Nat
  col : Nat

namespace Roll

/-- Print `a` where the head is. -/
def print (p : Roll α) (a : α) : Roll α :=
  { p with cell := Function.update p.cell (p.top + p.row) (Function.update (p.cell (p.top + p.row)) p.col a) }

def goTo (p : Roll α) (row col : Nat) : Roll α := { p with row := row, col := col }

/-- The next line: on the last row of the window the paper goes up instead of the head down. -/
def newLine (h : Nat) (p : Roll α) : Roll α :=
  if p.row + 1 < h then { p with row := p.row + 1 } else { p with top := p.top + 1 }

/-- At the end of a line of `w` columns the head goes to the start of the next one. -/
def wrap (h w : Nat) (p : Roll α) : Roll α :=
  if w ≤ p.col then (p.newLine h).goTo (p.newLine h).row 0 else p

@[simp] theorem print_top (p : Roll α) (a : α) : (p.print a).top = p.top := rfl

@[simp] theorem print_row (p : Roll α) (a : α) : (p.print a).row = p.row := rfl

theorem print_here (p : Roll α) (a : α) (c : Nat) :
    (p.print a).cell (p.top + p.row) c = Function.update (p.cell (p.top + p.row)) p.col a c :=
  congrFun (Function.update_self _ _ _) c

theorem print_elsewhere (p : Roll α) (a : α) {l : Nat} (hl : l ≠ p.top + p.row) :
    (p.print a).cell l = p.cell l :=
  Function.update_of_ne hl _ _

@[simp] theorem newLine_col (h : Nat) (p : Roll α) : (p.newLine h).col = p.col := by
  unfold newLine
  split <;> rfl

theorem wrap_of_le {h w : Nat} {p : Roll α} (hcol : w ≤ p.col) :
    p.wrap h w = (p.newLine h).goTo (p.newLine h).row 0 := if_pos hcol

theorem wrap_of_lt {h w : Nat} {p : Roll α} (hcol : p.col < w) : p.wrap h w = p := if_neg (Nat.not_le.mpr hcol)

end Roll

/-- A grid of `h` rows of `w` columns. -/
structure Shows (h w : Nat) (blank : α) (p : Roll α) (grid : Nat → Nat → α) : Prop where
  rows : ∀ r < h, ∀ c < w, grid r c = p.cell (p.top + r) c
  below : ∀ l, p.top + h ≤ l → ∀ c < w, p.cell l c = blank
  row : p.row < h

/-- The grid moved up by a row. -/
def scrolledUp (h : Nat) (blank : α) (grid : Nat → Nat → α) (r c : Nat) : α :=
  if r + 1 < h then grid (r + 1) c else blank

namespace Shows

variable {h w : Nat} {blank : α} {p : Roll α} {grid grid' : Nat → Nat → α}

theorem congr (hp : Shows h w blank p grid) (hgrid : ∀ r < h, ∀ c < w, grid' r c = grid r c) :
    Shows h w blank p grid' where
  rows r hr c hc := (hgrid r hr c hc).trans (hp.rows r hr c hc)
  below := hp.below
  row := hp.row

theorem goTo (hp : Shows h w blank p grid) {row : Nat} (col : Nat) (hrow : row < h) :
    Shows h w blank (p.goTo row col) grid where
  rows := hp.rows
  below := hp.below
  row := hrow

/-- A glyph put at the head. -/
theorem print (hp : Shows h w blank p grid) (a : α) :
    Shows h w blank (p.print a) (Function.update grid p.row (Function.update (grid p.row) p.col a)) where
  rows := by
    intro r hr c hc
    rw [Roll.print_top]
    by_cases hrow : r = p.row
    · subst hrow
      rw [Function.update_self, Roll.print_here]
      by_cases hcol : c = p.col
      · rw [hcol, Function.update_self, Function.update_self]
      · rw [Function.update_of_ne hcol, Function.update_of_ne hcol, hp.rows _ hr c hc]
    · rw [Function.update_of_ne hrow, Roll.print_elsewhere p a fun heq => hrow (Nat.add_left_cancel heq)]
      exact hp.rows r hr c hc
  below := by
    intro l hl c hc
    have hrow := hp.row
    rw [Roll.print_top] at hl
    rw [Roll.print_elsewhere p a (by omega)]
    exact hp.below l hl c hc
  row := hp.row

/-- The next row, within the window. -/
theorem newLine_down (hp : Shows h w blank p grid) (hrow : p.row + 1 < h) : Shows h w blank (p.newLine h) grid := by
  rw [Roll.newLine, if_pos hrow]
  exact ⟨hp.rows, hp.below, hrow⟩

/-- The next row, on the last one. -/
theorem newLine_up (hp : Shows h w blank p grid) (hrow : ¬ p.row + 1 < h) :
    Shows h w blank (p.newLine h) (scrolledUp h blank grid) := by
  rw [Roll.newLine, if_neg hrow]
  constructor
  · intro r hr c hc
    show _ = p.cell (p.top + 1 + r) c
    rw [scrolledUp, Nat.add_right_comm, Nat.add_assoc]
    split
    · rename_i hnext
      exact hp.rows (r + 1) hnext c hc
    · rename_i hlast
      exact (hp.below _ (by omega) c hc).symm
  · intro l hl c hc
    have hl' : p.top + 1 + h ≤ l := hl
    exact hp.below l (by omega) c hc
  · exact hp.row

end Shows

end PaperRoll
