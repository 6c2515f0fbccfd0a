/-
  Dosiz/TextScreen.lean
  =====================
  **The text screen at B8000h** (`screen_putchar` and the text services of `dosiz_int10` in `bridge.cc`).

  A cell is a word, the character below its attribute, and the screen is 25 rows of 80 cells.  INT 10h AH=06 and AH=07
  scroll a window of it in place: the rows are copied in the order in which no row is overwritten before it has been
  copied, so the window moves as a whole (`int10_scrolls`).
-/
import Mathlib.Data.List.Range
import Dosiz.CellMoves
import Dosiz.Machine
import Dosiz.TracedMemory

namespace Dosiz.TextScreen

open ByteMemory Machine TracedMemory CellMoves

/-! ### Cells -/

def cellAddr (i : Nat) : Nat := 0xB8000 + i * 2

/-- `g_text_attr`, which is never anything else. -/
def textAttr : Nat := 0x07

def putCell (ch attr : Nat) (t : Traced) (i : Nat) : Traced :=
  (t.writeb (cellAddr i) ch).writeb (cellAddr i + 1) attr

def copyCell (src : Nat → Nat) (t : Traced) (i : Nat) : Traced :=
  t.writew (cellAddr i) (readw t.mem (cellAddr (src i)))

/-- The cells of a loop over rows around a loop over the columns from `left` to `right`. -/
def windowCells (rows : List Nat) (left right : Nat) : List Nat :=
  rows.flatMap fun r => (List.range' left (right + 1 - left)).map fun c => r * 80 + c

/-! ### The services -/

def scrollLine (t : Traced) : Traced :=
  (List.range' 1920 80).foldl (putCell 0x20 textAttr) ((List.range 1920).foldl (copyCell (· + 80)) t)

/-- Row and column behind character `c`, before the line is full. -/
def afterChar (c row col : Nat) : Nat × Nat :=
  if c = 0x0D then (row, 0)
  else if c = 0x0A then (row + 1, col)
  else if c = 0x08 then (row, col - 1)
  else if c = 0x09 then (row, (col + 8) / 8 * 8)
  else if c = 0x07 then (row, col)
  else (row, col + 1)

/-- The characters that are put on the screen. -/
def isShown (c : Nat) : Bool := c ≠ 0x0D && c ≠ 0x0A && c ≠ 0x08 && c ≠ 0x09 && c ≠ 0x07

def clamp (limit v : Nat) : Nat := if limit < v then limit else v

def screenPutchar (c : Nat) (t : Traced) : Traced :=
  let pos := readw t.mem 0x450
  let row := clamp 24 (pos / 256)
  let col := clamp 79 (pos % 256)
  let t := if isShown c then putCell c textAttr t (row * 80 + col) else t
  let next := afterChar c row col
  let next := if 80 ≤ next.2 then (next.1 + 1, 0) else next
  if 25 ≤ next.1 then (scrollLine t).writew 0x450 (24 * 256 + next.2)
  else t.writew 0x450 (next.1 * 256 + next.2)

def int10_02 (m : Machine) : Traced := (Traced.start m.mem).writew 0x450 (m.r8h .edx * 256 + m.r8l .edx)

/-- AH=06 if `up`, else AH=07, on the rows from `top` to `bot`; `lines` of 0 is all of them. -/
def scrollRows (up : Bool) (lines attr top left bot right : Nat) (t : Traced) : Traced :=
  let height := bot - top + 1
  if lines = 0 ∨ height ≤ lines then (windowCells (List.range' top height) left right).foldl (putCell 0x20 attr) t
  else if up then
    let t := (windowCells (List.range' top (height - lines)) left right).foldl (copyCell (· + lines * 80)) t
    (windowCells (List.range' (bot - lines + 1) lines) left right).foldl (putCell 0x20 attr) t
  else
    let t := (windowCells (List.range' (top + lines) (height - lines)).reverse left right).foldl
      (copyCell (· - lines * 80)) t
    (windowCells (List.range' top lines) left right).foldl (putCell 0x20 attr) t

def int10_06_07 (m : Machine) : Traced :=
  let top := m.r8h .ecx
  let left := m.r8l .ecx
  let bot := clamp 24 (m.r8h .edx)
  let right := clamp 79 (m.r8l .edx)
  if bot < top ∨ right < left then .start m.mem
  else scrollRows (m.r8h .eax = 0x06) (m.r8l .eax) (m.r8h .ebx) top left bot right (.start m.mem)

def int10_08 (m : Machine) : Machine :=
  let pos := readw m.mem 0x450
  let cell := cellAddr (pos / 256 * 80 + pos % 256)
  (m.setR8l .eax (readb m.mem cell)).setR8h .eax (readb m.mem (cell + 1))

/-- The cursor is not clamped here; the loop ends at the end of the row. -/
def int10_09_0A (m : Machine) : Traced :=
  let pos := readw m.mem 0x450
  let attr := if m.r8h .eax = 0x09 then m.r8l .ebx else textAttr
  let count := if m.cx = 0 then 1 else m.cx
  (List.range (min count (80 - pos % 256))).foldl
    (fun t i => putCell (m.r8l .eax) attr t (pos / 256 * 80 + pos % 256 + i)) (.start m.mem)

/-- The machine with the memory of the trace, and where it was stored to. -/
def stored (m : Machine) (t : Traced) : Machine × List Nat := (m.setMem t.mem, t.written)

/-- The text services of INT 10h, with the addresses they store to; the others are left out. -/
def int10 (windowed : Bool) (m : Machine) : Machine × List Nat :=
  match m.r8h .eax with
  | 0x02 => stored m (int10_02 m)
  | 0x06 | 0x07 => stored m (int10_06_07 m)
  | 0x08 => (int10_08 m, [])
  | 0x09 | 0x0A => stored m (int10_09_0A m)
  | 0x0E => if windowed then stored m (screenPutchar (m.r8l .eax) (.start m.mem)) else (m, [])
  | _ => (m, [])

/-! ### The screen as cells -/

/-- The words of the screen, and of what lies behind it. -/
def cells (m : Mem) (i : Nat) : Nat := readw m (cellAddr i)

theorem cells_writew (m : Mem) (i v : Nat) :
    cells (ByteMemory.writew m (cellAddr i) v) = Function.update (cells m) i (v % 65536) := by
  funext j
  by_cases hj : j = i
  · rw [hj, Function.update_self, cells, readw_writew]
  · have hne : cellAddr j + 2 ≤ cellAddr i ∨ cellAddr i + 2 ≤ cellAddr j := by
      simp only [cellAddr]
      omega
    rw [Function.update_of_ne hj, cells, readw_writew_of_disjoint hne]
    rfl

/-- A cell with a character and its attribute. -/
def cellOf (ch attr : Nat) : Nat := ch + 256 * attr

theorem putCell_mem {ch attr : Nat} (hch : ch < 256) (t : Traced) (i : Nat) :
    (putCell ch attr t i).mem = ByteMemory.writew t.mem (cellAddr i) (cellOf ch attr) := by
  have hlow : UInt8.ofNat (cellOf ch attr) = UInt8.ofNat ch := by
    apply UInt8.toNat_inj.mp
    rw [UInt8.toNat_ofNat', UInt8.toNat_ofNat', cellOf]
    omega
  have hhigh : cellOf ch attr / 256 = attr := by
    rw [cellOf]
    omega
  have hbyte : ByteMemory.writeb t.mem (cellAddr i) (cellOf ch attr) = ByteMemory.writeb t.mem (cellAddr i) ch := by
    funext x
    simp only [ByteMemory.writeb, hlow]
  rw [ByteMemory.writew, hhigh, hbyte]
  rfl

section Loops

variable {t : Traced} {ks : List Nat}

theorem cells_copyAll (src : Nat → Nat) :
    cells (ks.foldl (copyCell src) t).mem = moveAll src (cells t.mem) ks := by
  induction ks generalizing t with
  | nil => rfl
  | cons i ks ih =>
    have hone : cells (copyCell src t i).mem = Function.update (cells t.mem) i (cells t.mem (src i)) := by
      rw [copyCell, Traced.writew_mem, cells_writew, Nat.mod_eq_of_lt (readw_lt _ _)]
      rfl
    rw [List.foldl_cons, ih, hone]
    rfl

theorem cells_putAll {ch attr : Nat} (hch : ch < 256) (hattr : attr < 256) :
    cells (ks.foldl (putCell ch attr) t).mem = fillAll (cellOf ch attr) (cells t.mem) ks := by
  induction ks generalizing t with
  | nil => rfl
  | cons i ks ih =>
    have hword : cellOf ch attr % 65536 = cellOf ch attr := Nat.mod_eq_of_lt (by rw [cellOf]; omega)
    rw [List.foldl_cons, ih, putCell_mem hch, cells_writew, hword]
    rfl

end Loops

/-! ### The cells of a window -/

section Windows

variable {rows : List Nat} {left right i : Nat}

theorem mem_windowCells (hright : right < 80) :
    i ∈ windowCells rows left right ↔ i / 80 ∈ rows ∧ left ≤ i % 80 ∧ i % 80 ≤ right := by
  rw [windowCells, List.mem_flatMap]
  constructor
  · rintro ⟨r, hr, hi⟩
    obtain ⟨c, hc, rfl⟩ := List.mem_map.mp hi
    have hcol := List.mem_range'_1.mp hc
    have hrow : (r * 80 + c) / 80 = r := by omega
    exact ⟨by rwa [hrow], by omega, by omega⟩
  · rintro ⟨hr, hleft, hle⟩
    exact ⟨i / 80, hr, List.mem_map.mpr ⟨i % 80, List.mem_range'_1.mpr (by omega), by omega⟩⟩

/-- The loop stays in a row until it goes on to the next one. -/
theorem windowCells_pairwise {R : Nat → Nat → Prop} (hright : right < 80) (hrows : rows.Pairwise R) :
    (windowCells rows left right).Pairwise fun i j => (i / 80 = j / 80 ∧ i < j) ∨ R (i / 80) (j / 80) := by
  have hrow : ∀ {r i : Nat}, i ∈ (List.range' left (right + 1 - left)).map (fun c => r * 80 + c) → i / 80 = r := by
    intro r i hi
    obtain ⟨c, hc, rfl⟩ := List.mem_map.mp hi
    have hcol := List.mem_range'_1.mp hc
    omega
  rw [windowCells, List.pairwise_flatMap]
  refine ⟨fun r _ => ?_, hrows.imp fun hR i hi j hj => ?_⟩
  · have hcols : (List.range' left (right + 1 - left)).Pairwise (· < ·) := List.pairwise_lt_range'
    refine List.pairwise_map.mpr (hcols.imp_of_mem ?_)
    intro c d hc hd hlt
    have hc' := List.mem_range'_1.mp hc
    have hd' := List.mem_range'_1.mp hd
    exact .inl ⟨by omega, by omega⟩
  · rw [hrow hi, hrow hj]
    exact .inr hR

theorem windowCells_nodup (hright : right < 80) (hrows : rows.Nodup) : (windowCells rows left right).Nodup := by
  refine (windowCells_pairwise (R := fun r s => r ≠ s) hright hrows).imp ?_
  rintro i j (⟨-, hlt⟩ | hne)
  · exact Nat.ne_of_lt hlt
  · exact fun hij => hne (congrArg (· / 80) hij)

end Windows

/-! ### Scrolling -/

/-- The row that row `r` of a window shows after it has been scrolled, if that row was in the window. -/
def sourceRow (up : Bool) (lines top bot r : Nat) : Option Nat :=
  if lines = 0 then none
  else if up then (if r + lines ≤ bot then some (r + lines) else none)
  else if top + lines ≤ r then some (r - lines) else none

/-- The screen with its window scrolled: what the service is for. -/
def scrolled (up : Bool) (lines attr top left bot right : Nat) (s : Nat → Nat) (i : Nat) : Nat :=
  if (top ≤ i / 80 ∧ i / 80 ≤ bot) ∧ left ≤ i % 80 ∧ i % 80 ≤ right then
    match sourceRow up lines top bot (i / 80) with
    | some r => s (r * 80 + i % 80)
    | none => cellOf 0x20 attr
  else s i

section Scroll

variable {lines attr top left bot right i : Nat} {t : Traced}

/-- Rows copied and then rows blanked. -/
theorem cells_copy_blank {src : Nat → Nat} {rows blanks : List Nat} (hattr : attr < 256) (hright : right < 80)
    (hnodup : rows.Nodup) (hfresh : (windowCells rows left right).Pairwise fun a b => src b ≠ a) :
    cells ((windowCells blanks left right).foldl (putCell 0x20 attr)
        ((windowCells rows left right).foldl (copyCell src) t)).mem i =
      if i ∈ windowCells blanks left right then cellOf 0x20 attr
      else if i ∈ windowCells rows left right then cells t.mem (src i) else cells t.mem i := by
  rw [cells_putAll (by decide) hattr, cells_copyAll]
  by_cases hblank : i ∈ windowCells blanks left right
  · rw [if_pos hblank, fillAll_of_mem hblank]
  · rw [if_neg hblank, fillAll_of_notMem hblank]
    by_cases hrow : i ∈ windowCells rows left right
    · rw [if_pos hrow, moveAll_of_fresh (windowCells_nodup hright hnodup) hfresh hrow]
    · rw [if_neg hrow, moveAll_of_notMem hrow]

theorem cells_scrollUp (hattr : attr < 256) (hright : right < 80) (hlines : 0 < lines) (hheight : top + lines ≤ bot) :
    cells (scrollRows true lines attr top left bot right t).mem i =
      scrolled true lines attr top left bot right (cells t.mem) i := by
  have hrows : (List.range' top (bot - top + 1 - lines)).Pairwise (· < ·) := List.pairwise_lt_range'
  -- rows are copied from above: a source lies below all that has been written
  have hfresh : (windowCells (List.range' top (bot - top + 1 - lines)) left right).Pairwise
      fun a b => b + lines * 80 ≠ a := by
    refine (windowCells_pairwise hright hrows).imp fun h => ?_
    omega
  rw [scrollRows, if_neg (by omega), if_pos rfl, cells_copy_blank hattr hright List.nodup_range' hfresh]
  simp only [mem_windowCells hright, List.mem_range'_1, scrolled, sourceRow, if_neg (Nat.ne_of_gt hlines), if_true]
  have hsrc : (i / 80 + lines) * 80 + i % 80 = i + lines * 80 := by omega
  by_cases hwin : (top ≤ i / 80 ∧ i / 80 ≤ bot) ∧ left ≤ i % 80 ∧ i % 80 ≤ right
  · rw [if_pos hwin]
    by_cases hrow : i / 80 + lines ≤ bot
    · rw [if_pos hrow, if_neg (by omega), if_pos (by omega)]
      exact congrArg (cells t.mem) hsrc.symm
    · rw [if_neg hrow, if_pos (by omega)]
  · rw [if_neg hwin, if_neg (by omega), if_neg (by omega)]

theorem cells_scrollDown (hattr : attr < 256) (hright : right < 80) (hlines : 0 < lines)
    (hheight : top + lines ≤ bot) :
    cells (scrollRows false lines attr top left bot right t).mem i =
      scrolled false lines attr top left bot right (cells t.mem) i := by
  have hrows : (List.range' (top + lines) (bot - top + 1 - lines)).reverse.Pairwise fun r s => s < r :=
    List.pairwise_reverse.mpr List.pairwise_lt_range'
  -- rows are copied from below: a source lies above all that has been written
  have hfresh : (windowCells (List.range' (top + lines) (bot - top + 1 - lines)).reverse left right).Pairwise
      fun a b => b - lines * 80 ≠ a := by
    refine ((windowCells_pairwise hright hrows).imp_of_mem fun ha hb h => ?_)
    have hb' := ((mem_windowCells hright).mp hb).1
    rw [List.mem_reverse, List.mem_range'_1] at hb'
    omega
  rw [scrollRows, if_neg (by omega), if_neg (by decide),
    cells_copy_blank hattr hright (List.nodup_reverse.mpr List.nodup_range') hfresh]
  simp only [mem_windowCells hright, List.mem_reverse, List.mem_range'_1, scrolled, sourceRow,
    if_neg (Nat.ne_of_gt hlines), Bool.false_eq_true, if_false]
  by_cases hwin : (top ≤ i / 80 ∧ i / 80 ≤ bot) ∧ left ≤ i % 80 ∧ i % 80 ≤ right
  · rw [if_pos hwin]
    by_cases hrow : top + lines ≤ i / 80
    · have hsrc : (i / 80 - lines) * 80 + i % 80 = i - lines * 80 := by omega
      rw [if_pos hrow, if_neg (by omega), if_pos (by omega)]
      exact congrArg (cells t.mem) hsrc.symm
    · rw [if_neg hrow, if_pos (by omega)]
  · rw [if_neg hwin, if_neg (by omega), if_neg (by omega)]

/-- No row of a window that is scrolled by its height or more stays in it. -/
theorem sourceRow_none (up : Bool) {r : Nat} (hall : lines = 0 ∨ bot - top + 1 ≤ lines) (hr : top ≤ r ∧ r ≤ bot) :
    sourceRow up lines top bot r = none := by
  by_cases hzero : lines = 0
  · rw [sourceRow, if_pos hzero]
  · have hheight := hall.resolve_left hzero
    cases up with
    | true => rw [sourceRow, if_neg hzero, if_pos rfl, if_neg (by omega)]
    | false => rw [sourceRow, if_neg hzero, if_neg (by decide), if_neg (by omega)]

theorem cells_scrollRows (up : Bool) (hattr : attr < 256) (hright : right < 80) (htop : top ≤ bot) :
    cells (scrollRows up lines attr top left bot right t).mem i =
      scrolled up lines attr top left bot right (cells t.mem) i := by
  by_cases hall : lines = 0 ∨ bot - top + 1 ≤ lines
  · have hmem : i ∈ windowCells (List.range' top (bot - top + 1)) left right ↔
        (top ≤ i / 80 ∧ i / 80 ≤ bot) ∧ left ≤ i % 80 ∧ i % 80 ≤ right := by
      rw [mem_windowCells hright, List.mem_range'_1]
      omega
    rw [scrollRows, if_pos hall, cells_putAll (by decide) hattr, scrolled]
    by_cases hwin : (top ≤ i / 80 ∧ i / 80 ≤ bot) ∧ left ≤ i % 80 ∧ i % 80 ≤ right
    · rw [if_pos hwin, fillAll_of_mem (hmem.mpr hwin), sourceRow_none up hall hwin.1]
    · rw [if_neg hwin, fillAll_of_notMem (mt hmem.mp hwin)]
  · cases up with
    | true => exact cells_scrollUp hattr hright (by omega) (by omega)
    | false => exact cells_scrollDown hattr hright (by omega) (by omega)

end Scroll

/-! ### Where the services store -/

/-- The 4000 bytes of the screen. -/
def textBuffer : Set Nat := Set.Ico 0xB8000 0xB8FA0

section Stores

variable {t : Traced} {ks : List Nat}

theorem cellAddr_mem {i : Nat} (hi : i < 2000) : cellAddr i ∈ textBuffer ∧ cellAddr i + 1 ∈ textBuffer := by
  constructor <;>
  · simp only [textBuffer, cellAddr, Set.mem_Ico]
    omega

theorem putCell_writes {ch attr i : Nat} (hch : ch < 256) (hi : i < 2000) : Writes textBuffer t (putCell ch attr t i) where
  trace := by
    obtain ⟨h₀, h₁⟩ := cellAddr_mem hi
    refine ⟨[cellAddr i, cellAddr i + 1], ?_, ?_⟩
    · simp [putCell, Traced.writeb]
    · rintro a ha
      rcases List.mem_cons.mp ha with rfl | ha
      · exact h₀
      · rwa [List.mem_singleton.mp ha]
  off := by
    rw [putCell_mem hch]
    exact (Writes.writew t _ (cellAddr_mem hi).1 (cellAddr_mem hi).2).off

theorem putAll_writes {ch attr : Nat} (hch : ch < 256) (hks : ∀ i ∈ ks, i < 2000) :
    Writes textBuffer t (ks.foldl (putCell ch attr) t) := by
  induction ks generalizing t with
  | nil => exact Writes.refl _ _
  | cons i ks ih =>
    exact (putCell_writes hch (hks i List.mem_cons_self)).trans (ih fun j hj => hks j (List.mem_cons_of_mem i hj))

theorem copyAll_writes (src : Nat → Nat) (hks : ∀ i ∈ ks, i < 2000) :
    Writes textBuffer t (ks.foldl (copyCell src) t) := by
  induction ks generalizing t with
  | nil => exact Writes.refl _ _
  | cons i ks ih =>
    obtain ⟨h₀, h₁⟩ := cellAddr_mem (hks i List.mem_cons_self)
    exact (Writes.writew t _ h₀ h₁).trans (ih fun j hj => hks j (List.mem_cons_of_mem i hj))

theorem windowCells_lt {rows : List Nat} {left right : Nat} (hright : right < 80) (hrows : ∀ r ∈ rows, r ≤ 24) :
    ∀ i ∈ windowCells rows left right, i < 2000 := by
  intro i hi
  have hrow := hrows _ ((mem_windowCells hright).mp hi).1
  omega

theorem scrollRows_writes (up : Bool) {lines attr top left bot right : Nat} (hright : right < 80) (hbot : bot ≤ 24)
    (htop : top ≤ bot) : Writes textBuffer t (scrollRows up lines attr top left bot right t) := by
  have hrange : ∀ s n, s + n ≤ bot + 1 → ∀ r ∈ List.range' s n, r ≤ 24 := fun s n hsn r hr => by
    have hmem := List.mem_range'_1.mp hr
    omega
  by_cases hall : lines = 0 ∨ bot - top + 1 ≤ lines
  · rw [scrollRows, if_pos hall]
    exact putAll_writes (by decide) (windowCells_lt hright (hrange _ _ (by omega)))
  · cases up with
    | true =>
      rw [scrollRows, if_neg hall, if_pos rfl]
      exact (copyAll_writes _ (windowCells_lt hright (hrange _ _ (by omega)))).trans
        (putAll_writes (by decide) (windowCells_lt hright (hrange _ _ (by omega))))
    | false =>
      have hrev : ∀ r ∈ (List.range' (top + lines) (bot - top + 1 - lines)).reverse, r ≤ 24 := fun r hr =>
        hrange _ _ (by omega) r (List.mem_reverse.mp hr)
      rw [scrollRows, if_neg hall, if_neg (by decide)]
      exact (copyAll_writes _ (windowCells_lt hright hrev)).trans
        (putAll_writes (by decide) (windowCells_lt hright (hrange _ _ (by omega))))

end Stores

/-! ### The scroll services -/

theorem clamp_le (limit v : Nat) : clamp limit v ≤ limit := by
  by_cases h : limit < v
  · rw [clamp, if_pos h]
  · rw [clamp, if_neg h]
    omega

theorem r8l_lt (m : Machine) (r : Reg) : m.r8l r < 256 := Nat.mod_lt _ (by decide)

theorem r8h_lt (m : Machine) (r : Reg) : m.r8h r < 256 := Nat.mod_lt _ (by decide)

theorem int10_scroll_eq (windowed : Bool) {m : Machine} (h : m.r8h .eax = 0x06 ∨ m.r8h .eax = 0x07) :
    int10 windowed m = stored m (int10_06_07 m) := by
  rcases h with h | h <;>
  · rw [int10, h]
    rfl

theorem int10_06_07_writes (m : Machine) : Writes textBuffer (.start m.mem) (int10_06_07 m) := by
  have hbot := clamp_le 24 (m.r8h .edx)
  have hright := clamp_le 79 (m.r8l .edx)
  by_cases hempty : clamp 24 (m.r8h .edx) < m.r8h .ecx ∨ clamp 79 (m.r8l .edx) < m.r8l .ecx
  · rw [int10_06_07, if_pos hempty]
    exact Writes.refl _ _
  · rw [int10_06_07, if_neg hempty]
    exact scrollRows_writes _ (by omega) hbot (by omega)

theorem int10_06_07_cells (m : Machine) (i : Nat) :
    cells (int10_06_07 m).mem i = scrolled (m.r8h .eax = 0x06) (m.r8l .eax) (m.r8h .ebx) (m.r8h .ecx) (m.r8l .ecx)
      (clamp 24 (m.r8h .edx)) (clamp 79 (m.r8l .edx)) (cells m.mem) i := by
  have hright := clamp_le 79 (m.r8l .edx)
  by_cases hempty : clamp 24 (m.r8h .edx) < m.r8h .ecx ∨ clamp 79 (m.r8l .edx) < m.r8l .ecx
  · rw [int10_06_07, if_pos hempty, scrolled, if_neg (by omega)]
    rfl
  · rw [int10_06_07, if_neg hempty]
    exact cells_scrollRows _ (r8h_lt m .ebx) (by omega) (by omega)

/-- **AH=06 and AH=07 scroll the window.**  Row `r` of the window, clamped to the screen, gets what row `r + AL`
    (`r - AL`) held if that is a row of the window, and blanks with attribute BH else; the cells beside the window and
    all other memory stay, and a window that is upside down changes nothing. -/
theorem int10_scrolls (windowed : Bool) (m : Machine) (h : m.r8h .eax = 0x06 ∨ m.r8h .eax = 0x07) :
    (∀ r c, r < 25 → c < 80 → cells (int10 windowed m).1.mem (r * 80 + c) =
      scrolled (m.r8h .eax = 0x06) (m.r8l .eax) (m.r8h .ebx) (m.r8h .ecx) (m.r8l .ecx)
        (clamp 24 (m.r8h .edx)) (clamp 79 (m.r8l .edx)) (cells m.mem) (r * 80 + c)) ∧
    AgreesOff textBuffer m.mem (int10 windowed m).1.mem ∧
    (clamp 24 (m.r8h .edx) < m.r8h .ecx ∨ clamp 79 (m.r8l .edx) < m.r8l .ecx → (int10 windowed m).1.mem = m.mem) := by
  rw [int10_scroll_eq windowed h]
  refine ⟨fun r c _ _ => int10_06_07_cells m _, (int10_06_07_writes m).off, fun hempty => ?_⟩
  rw [int10_06_07, if_pos hempty]
  rfl

/-- AH=06 with three lines, over the whole screen. -/
def scrolling : Machine :=
  (bootMachine.setMem fun a => UInt8.ofNat a).setRegs fun
    | .eax => 0x0603
    | .ebx => 0x0700
    | .edx => 0x184F
    | _ => 0

theorem int10_scrolls_three : cells (int10 true scrolling).1.mem (2 * 80 + 1) = cells scrolling.mem (5 * 80 + 1) ∧
    cells (int10 true scrolling).1.mem (22 * 80 + 1) = 0x0720 := by
  have hscroll := (int10_scrolls true scrolling (.inl (by decide +kernel))).1
  exact ⟨(hscroll 2 1 (by decide) (by decide)).trans (by decide +kernel),
    (hscroll 22 1 (by decide) (by decide)).trans (by decide +kernel)⟩

end Dosiz.TextScreen
