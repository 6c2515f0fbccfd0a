/-
  Dosiz/ConsoleRoll.lean
  ======================
  **The text screen as a window of what has been written** (`screen_putchar` of `bridge.cc`).

  The output services end in `screen_putchar` when there is a window: INT 10h AH=0E and INT 21h AH=02,
  06, 09 and 40 on standard output (the echoes of AH=01 and AH=0A are left out here).  It keeps a grid
  of 25 rows and a cursor word, moves the rows up and forgets the first.  The model of its purpose is
  an endless roll of paper (`PaperRoll`) on which each character is printed or moves the head, and
  nothing is ever moved.
  `console_shows_roll`: over every run of these services, of cursor settings and of guest code that
  keeps off the screen, the 2000 cells are the window's part of that roll.
-/
import Dosiz.FlagEdit
import Dosiz.Gates
import Dosiz.PaperRoll
import Dosiz.ShortWrites
import Dosiz.TextScreen
import Dosiz.Transition

namespace Dosiz.ConsoleRoll

open ByteMemory CellMoves FileHandles Gates Machine PaperRoll ShortWrites TextScreen TracedMemory Transition

/-! ### The services -/

/-- `screen_putchar` -/
def putchar (m : Machine) (c : Nat) : Machine := (stored m (screenPutchar c (.start m.mem))).1

/-- The characters handed to `screen_putchar` one after the other. -/
def putchars (m : Machine) (cs : List Nat) : Machine := cs.foldl putchar m

/-- AH=09: the loop from `off` on, which reads each character after the one before it is on the screen.  The
    offset is a `uint16_t`; `none` is a string without a `$` within the fuel. -/
def writeString (base : Nat) : Nat → Nat → Machine → Option (Machine × List Nat)
  | 0, _, _ => none
  | n + 1, off, m =>
    let c := readb m.mem (lin (base + off))
    if c = 0x24 then some (m, [])
    else (writeString base n ((off + 1) % 65536) (putchar m c)).map fun r => (r.1, c :: r.2)

/-- What a call does to the head of the terminal. -/
inductive Act where
  | char (c : Nat)
  | place (row col : Nat)

/-- A call of a console service; AH=40 with the answer of the host's `write`. -/
inductive Call where
  | int10_02
  | int10_0E
  | int21_02
  | int21_06
  | int21_09 (fuel : Nat)
  | int21_40 (written : Option Nat)

/-- The registers that select the call. -/
def Call.Asked (m : Machine) : Call → Prop
  | .int10_02 => m.r8h .eax = 0x02
  | .int10_0E => m.r8h .eax = 0x0E
  | .int21_02 => m.r8h .eax = 0x02
  | .int21_06 => m.r8h .eax = 0x06 ∧ m.r8l .edx ≠ 0xFF
  | .int21_09 _ => m.r8h .eax = 0x09
  | .int21_40 _ => m.r8h .eax = 0x40 ∧ m.bx = 1

/-- The call in a window, and what it has done to the head. -/
def Call.serve (m : Machine) : Call → Option (Machine × List Act)
  | .int10_02 => some ((int10 true m).1, [.place (m.r8h .edx) (m.r8l .edx)])
  | .int10_0E => some ((int10 true m).1, [.char (m.r8l .eax)])
  | .int21_02 => some (putchar m (m.r8l .edx), [.char (m.r8l .edx)])
  | .int21_06 =>
    some (callbackSzf ((putchar m (m.r8l .edx)).setR8l .eax (m.r8l .edx)) false, [.char (m.r8l .edx)])
  | .int21_09 fuel => (writeString (m.segPhys .ds) fuel m.dx m).map fun r => (r.1, r.2.map .char)
  | .int21_40 written =>
    let r := FileHandles.int21_40 (putchars m (guestBytes m)) written
    some (setCf r.1 r.2, (guestBytes m).map .char)

/-! ### Runs -/

/-- The cells and the cursor word. -/
def screenBytes : Set Nat := textBuffer ∪ Set.Ico 0x450 0x452

/-- The machine, and all that has been done to the head so far. -/
structure Console where
  machine : Machine
  acts : List Act

/-- Guest code and other services, or a call. -/
inductive Event where
  | guest (m' : Machine)
  | call (c : Call)

def step (s : Console) (e : Event) (s' : Console) : Prop :=
  match e with
  | .guest m' => s' = ⟨m', s.acts⟩
  | .call c => c.Asked s.machine ∧ ∃ m' acts, c.serve s.machine = some (m', acts) ∧ s' = ⟨m', s.acts ++ acts⟩

/-- The flag image that the call edits is not on the screen. -/
def Call.Beside (m : Machine) : Call → Prop
  | .int21_06 => callbackFlagAddr ((putchar m (m.r8l .edx)).setR8l .eax (m.r8l .edx)) ∉ screenBytes
  | .int21_40 written => flagsAddr (FileHandles.int21_40 (putchars m (guestBytes m)) written).1 ∉ screenBytes
  | _ => True

/-- Nothing else writes on the screen. -/
def Beside (s : Console) : Event → Prop
  | .guest m' => ∀ a ∈ screenBytes, m'.mem a = s.machine.mem a
  | .call c => c.Beside s.machine

/-! ### The roll -/

/-- A glyph in the colours of the console. -/
def glyph (c : Nat) : Nat := cellOf c textAttr

/-- What a character does on the roll. -/
def typeChar (p : Roll Nat) (c : Nat) : Roll Nat :=
  Roll.wrap 25 80 <|
    if c = 0x0D then p.goTo p.row 0
    else if c = 0x0A then p.newLine 25
    else if c = 0x08 then p.goTo p.row (p.col - 1)
    else if c = 0x09 then p.goTo p.row ((p.col / 8 + 1) * 8)
    else if c = 0x07 then p
    else (p.print (glyph c)).goTo p.row (p.col + 1)

def Act.apply (p : Roll Nat) : Act → Roll Nat
  | .char c => typeChar p c
  | .place row col => p.goTo (clamp 24 row) (clamp 79 col)

def grid (m : Mem) (r c : Nat) : Nat := cells m (r * 80 + c)

/-- The row and the column of the cursor word, which the guest may set to anything. -/
def cursor (m : Mem) : Nat × Nat := (clamp 24 (readw m 0x450 / 256), clamp 79 (readw m 0x450 % 256))

/-- A roll that begins with what is on the screen. -/
def rollOf (m : Mem) : Roll Nat where
  cell l c := if l < 25 then grid m l c else glyph 0x20
  top := 0
  row := (cursor m).1
  col := (cursor m).2

/-- The memory holds the window of the roll, and the head. -/
structure Shown (p : Roll Nat) (m : Mem) : Prop where
  shows : Shows 25 80 (glyph 0x20) p (grid m)
  head : cursor m = (p.row, p.col)

theorem shown_rollOf (m : Mem) : Shown (rollOf m) m where
  shows := {
    rows := fun r hr c _ => by simp only [rollOf, Nat.zero_add, if_pos hr]
    below := fun l hl c _ => by simp only [rollOf, Nat.zero_add] at hl ⊢; rw [if_neg (by omega)]
    row := Nat.lt_succ_of_le (clamp_le 24 _) }
  head := rfl

/-! ### One character -/

section Putchar

variable {p : Roll Nat} {t : Traced} {m : Mem}

theorem Shown.col_lt (h : Shown p m) : p.col < 80 := by
  have hcol : (cursor m).2 ≤ 79 := clamp_le 79 _
  rw [h.head] at hcol
  exact Nat.lt_succ_of_le hcol

theorem clamp_of_le {limit v : Nat} (h : v ≤ limit) : clamp limit v = v := if_neg (Nat.not_lt.mpr h)

/-- The cursor word is not in the cells. -/
theorem grid_setCursor (m : Mem) (v : Nat) : grid (ByteMemory.writew m 0x450 v) = grid m := by
  funext r c
  simp only [grid, cells]
  refine readw_writew_of_disjoint (Or.inr ?_)
  rw [cellAddr]
  omega

theorem cursor_setCursor (m : Mem) {row col : Nat} (hrow : row < 25) (hcol : col < 80) :
    cursor (ByteMemory.writew m 0x450 (row * 256 + col)) = (row, col) := by
  have hword : (row * 256 + col) % 65536 = row * 256 + col := Nat.mod_eq_of_lt (by omega)
  rw [cursor, readw_writew, hword]
  have hdiv : (row * 256 + col) / 256 = row := by omega
  have hmod : (row * 256 + col) % 256 = col := by omega
  rw [hdiv, hmod, clamp_of_le (by omega), clamp_of_le (by omega)]

/-- The cell at the head gets the glyph. -/
theorem grid_putCell {c row col : Nat} (hc : c < 256) (hcol : col < 80) :
    ∀ r < 25, ∀ k < 80, grid (putCell c textAttr t (row * 80 + col)).mem r k =
      Function.update (grid t.mem) row (Function.update (grid t.mem row) col (glyph c)) r k := by
  intro r _ k hk
  have hword : cellOf c textAttr % 65536 = glyph c := Nat.mod_eq_of_lt (by rw [cellOf, textAttr]; omega)
  rw [grid, putCell_mem hc, cells_writew, hword]
  by_cases hrow : r = row
  · subst hrow
    rw [Function.update_self]
    by_cases hk' : k = col
    · rw [hk', Function.update_self, Function.update_self]
    · rw [Function.update_of_ne hk', Function.update_of_ne (by omega)]
      rfl
  · rw [Function.update_of_ne hrow, Function.update_of_ne (by omega)]
    rfl

/-- The loop of the scroll is a simultaneous copy: it goes up through the cells. -/
theorem grid_scrollLine : ∀ r < 25, ∀ k < 80, grid (scrollLine t).mem r k =
    scrolledUp 25 (glyph 0x20) (grid t.mem) r k := by
  intro r hr k hk
  have hfresh : (List.range 1920).Pairwise fun a b => b + 80 ≠ a :=
    List.pairwise_lt_range.imp fun h => by omega
  rw [grid, scrollLine, cells_putAll (by decide) (by decide), cells_copyAll, scrolledUp]
  by_cases hlast : r + 1 < 25
  · have hmem : r * 80 + k ∈ List.range 1920 := List.mem_range.mpr (by omega)
    have hnot : r * 80 + k ∉ List.range' 1920 80 := fun h => by
      have hlow := (List.mem_range'_1.mp h).1
      omega
    rw [if_pos hlast, fillAll_of_notMem hnot, moveAll_of_fresh List.nodup_range hfresh hmem, grid]
    congr 1
    omega
  · rw [if_neg hlast, fillAll_of_mem (List.mem_range'_1.mpr (by omega))]
    rfl

/-- The last lines of `screen_putchar`: the head goes to a column of its row. -/
theorem shown_stay (hp : Shows 25 80 (glyph 0x20) p (grid t.mem)) {col : Nat} (hcol : col < 80) :
    Shown (p.goTo p.row col) (t.writew 0x450 (p.row * 256 + col)).mem where
  shows := by
    rw [Traced.writew_mem, grid_setCursor]
    exact hp.goTo col hp.row
  head := by
    rw [Traced.writew_mem, cursor_setCursor t.mem hp.row hcol]
    rfl

/-- The head goes to a column of the next row. -/
theorem shown_down (hp : Shows 25 80 (glyph 0x20) p (grid t.mem)) {col : Nat} (hcol : col < 80) :
    Shown ((p.newLine 25).goTo (p.newLine 25).row col)
      (if 25 ≤ p.row + 1 then (scrollLine t).writew 0x450 (24 * 256 + col)
        else t.writew 0x450 ((p.row + 1) * 256 + col)).mem := by
  have hrow := hp.row
  by_cases hlast : p.row + 1 < 25
  · rw [if_neg (Nat.not_le.mpr hlast)]
    have hnext : (p.newLine 25).row = p.row + 1 := by rw [Roll.newLine, if_pos hlast]
    have hshown := shown_stay (hp.newLine_down hlast) hcol
    rwa [hnext] at hshown ⊢
  · rw [if_pos (Nat.not_lt.mp hlast)]
    have hnext : (p.newLine 25).row = 24 := by
      rw [Roll.newLine, if_neg hlast]
      dsimp only
      omega
    have hshows := (hp.newLine_up hlast).congr (grid_scrollLine (t := t))
    have hshown := shown_stay hshows hcol
    rwa [hnext] at hshown ⊢

/-- The end of `screen_putchar`, from the place behind the character. -/
def settle (t : Traced) (next : Nat × Nat) : Traced :=
  let next := if 80 ≤ next.2 then (next.1 + 1, 0) else next
  if 25 ≤ next.1 then (scrollLine t).writew 0x450 (24 * 256 + next.2) else t.writew 0x450 (next.1 * 256 + next.2)

theorem screenPutchar_settle (h : Shown p t.mem) (c : Nat) : screenPutchar c t =
    settle (if isShown c then putCell c textAttr t (p.row * 80 + p.col) else t) (afterChar c p.row p.col) := by
  have hrow : clamp 24 (readw t.mem 0x450 / 256) = p.row := congrArg Prod.fst h.head
  have hcol : clamp 79 (readw t.mem 0x450 % 256) = p.col := congrArg Prod.snd h.head
  rw [← hrow, ← hcol]
  rfl

theorem settle_row (hp : Shows 25 80 (glyph 0x20) p (grid t.mem)) (col : Nat) :
    Shown ((p.goTo p.row col).wrap 25 80) (settle t (p.row, col)).mem := by
  by_cases hend : 80 ≤ col
  · have hcol : 80 ≤ (p.goTo p.row col).col := hend
    rw [Roll.wrap_of_le hcol, settle, if_pos hend]
    exact shown_down (hp.goTo col hp.row) (by decide)
  · have hcol : (p.goTo p.row col).col < 80 := Nat.not_le.mp hend
    have hup : ¬ 25 ≤ p.row := Nat.not_le.mpr hp.row
    have hsettle : settle t (p.row, col) = t.writew 0x450 (p.row * 256 + col) := by
      rw [settle, if_neg hend]
      exact if_neg hup
    rw [Roll.wrap_of_lt hcol, hsettle]
    exact shown_stay hp hcol

theorem settle_line (hp : Shows 25 80 (glyph 0x20) p (grid t.mem)) (hcol : p.col < 80) :
    Shown ((p.newLine 25).wrap 25 80) (settle t (p.row + 1, p.col)).mem := by
  have hin : ¬ 80 ≤ p.col := Nat.not_le.mpr hcol
  have hdown := shown_down hp hcol
  have hself : (p.newLine 25).goTo (p.newLine 25).row p.col = p.newLine 25 := by
    conv => lhs; rw [← Roll.newLine_col 25 p]
    rfl
  rw [hself] at hdown
  rw [Roll.wrap_of_lt (by rwa [Roll.newLine_col]), settle, if_neg hin]
  exact hdown

/-- `screen_putchar` types on the roll. -/
theorem shown_putchar (h : Shown p t.mem) {c : Nat} (hc : c < 256) :
    Shown (typeChar p c) (screenPutchar c t).mem := by
  have hcol := h.col_lt
  rw [screenPutchar_settle h, typeChar]
  by_cases hcr : c = 0x0D
  · subst hcr
    exact settle_row h.shows 0
  by_cases hlf : c = 0x0A
  · subst hlf
    exact settle_line h.shows hcol
  by_cases hbs : c = 0x08
  · subst hbs
    exact settle_row h.shows (p.col - 1)
  by_cases htab : c = 0x09
  · subst htab
    have hstop : (p.col + 8) / 8 * 8 = (p.col / 8 + 1) * 8 := by omega
    have hrow := settle_row h.shows ((p.col / 8 + 1) * 8)
    rw [← hstop] at hrow ⊢
    exact hrow
  by_cases hbell : c = 0x07
  · subst hbell
    exact settle_row h.shows p.col
  · have hshown : isShown c = true := by simp [isShown, hcr, hlf, hbs, htab, hbell]
    have hprint := (h.shows.print (glyph c)).congr (grid_putCell hc hcol)
    rw [if_neg hcr, if_neg hlf, if_neg hbs, if_neg htab, if_neg hbell, if_pos hshown, afterChar, if_neg hcr, if_neg hlf,
      if_neg hbs, if_neg htab, if_neg hbell]
    exact settle_row hprint (p.col + 1)

end Putchar

/-! ### The calls -/

section Calls

variable {p : Roll Nat} {m m' : Machine}

/-- Nothing else of memory is shown. -/
theorem Shown.frame {mem mem' : Mem} (h : Shown p mem) (hsame : ∀ a ∈ screenBytes, mem' a = mem a) : Shown p mem' := by
  have hgrid : ∀ r < 25, ∀ c < 80, grid mem' r c = grid mem r c := by
    intro r hr c hc
    have hcell := cellAddr_mem (show r * 80 + c < 2000 by omega)
    rw [grid, grid, cells, cells, readw, readw, readb, readb, readb, readb, hsame _ (Or.inl hcell.1),
      hsame _ (Or.inl hcell.2)]
  have hcursor : cursor mem' = cursor mem := by
    rw [cursor, cursor, readw, readw, readb, readb, readb, readb, hsame 0x450 (Or.inr ⟨by decide, by decide⟩),
      hsame (0x450 + 1) (Or.inr ⟨by decide, by decide⟩)]
  exact ⟨h.shows.congr hgrid, hcursor.trans h.head⟩

/-- One byte changed off the screen. -/
theorem Shown.frame_off {mem mem' : Mem} {a : Nat} (h : Shown p mem) (hoff : AgreesOff {a} mem mem')
    (ha : a ∉ screenBytes) : Shown p mem' :=
  h.frame fun x hx => hoff x fun hxa => ha (Set.mem_singleton_iff.mp hxa ▸ hx)

theorem shown_putchars {cs : List Nat} (hcs : ∀ c ∈ cs, c < 256) (h : Shown p m.mem) :
    Shown (cs.foldl typeChar p) (putchars m cs).mem := by
  induction cs generalizing p m with
  | nil => exact h
  | cons c cs ih =>
    rw [List.forall_mem_cons] at hcs
    exact ih hcs.2 (shown_putchar (t := .start m.mem) h hcs.1)

/-- The string goes on the roll as it was read, also where it lies on the screen. -/
theorem shown_writeString {base : Nat} : ∀ (n off : Nat) {m m' : Machine} {p : Roll Nat} {cs : List Nat},
    Shown p m.mem → writeString base n off m = some (m', cs) → Shown (cs.foldl typeChar p) m'.mem := by
  intro n
  induction n with
  | zero =>
    intro off m m' p cs _ hw
    cases hw
  | succ n ih =>
    intro off m m' p cs h hw
    rw [writeString] at hw
    split at hw
    · cases hw
      exact h
    · obtain ⟨r, hr, heq⟩ := Option.map_eq_some_iff.mp hw
      cases heq
      have hput : Shown (typeChar p (readb m.mem (lin (base + off)))) (putchar m _).mem :=
        shown_putchar (t := .start m.mem) h (readb_lt _ _)
      have hrest := ih _ hput hr
      exact hrest

theorem foldl_chars (cs : List Nat) (p : Roll Nat) : (cs.map Act.char).foldl Act.apply p = cs.foldl typeChar p :=
  List.foldl_map

theorem guestBytes_lt (m : Machine) : ∀ c ∈ guestBytes m, c < 256 := by
  intro c hc
  obtain ⟨i, -, rfl⟩ := List.mem_map.mp hc
  exact readb_lt _ _

theorem shown_int10_02 (h : Shown p m.mem) (hah : m.r8h .eax = 0x02) :
    Shown (p.goTo (clamp 24 (m.r8h .edx)) (clamp 79 (m.r8l .edx))) (int10 true m).1.mem := by
  have hmem : (int10 true m).1.mem = ByteMemory.writew m.mem 0x450 (m.r8h .edx * 256 + m.r8l .edx) := by
    rw [int10, hah]
    rfl
  have hdh := r8h_lt m .edx
  have hdl := r8l_lt m .edx
  rw [hmem]
  refine ⟨?_, ?_⟩
  · rw [grid_setCursor]
    exact h.shows.goTo _ (Nat.lt_succ_of_le (clamp_le 24 _))
  · have hword : (m.r8h .edx * 256 + m.r8l .edx) % 65536 = m.r8h .edx * 256 + m.r8l .edx :=
      Nat.mod_eq_of_lt (by omega)
    have hdiv : (m.r8h .edx * 256 + m.r8l .edx) / 256 = m.r8h .edx := by omega
    have hmod : (m.r8h .edx * 256 + m.r8l .edx) % 256 = m.r8l .edx := by omega
    rw [cursor, readw_writew, hword, hdiv, hmod]
    rfl

theorem callbackSzf_off (m : Machine) (val : Bool) :
    AgreesOff {callbackFlagAddr m} m.mem (callbackSzf m val).mem := by
  have hmask : (0x0040 : BitVec 16) = BitVec.twoPow 16 6 := by decide
  rw [callbackSzf, hmask]
  exact editFlag_off_byte m.mem _ (by decide) val

/-- The answer of AH=40 is in the registers. -/
theorem int21_40_mem (m : Machine) (written : Option Nat) : (FileHandles.int21_40 m written).1.mem = m.mem := by
  unfold FileHandles.int21_40 setCount
  split
  · rfl
  · split
    · rfl
    · split <;> rfl

/-- Each call does on the roll what it says. -/
theorem shown_serve {c : Call} {acts : List Act} (h : Shown p m.mem) (hask : c.Asked m)
    (hb : c.Beside m) (hs : c.serve m = some (m', acts)) :
    Shown (acts.foldl Act.apply p) m'.mem := by
  cases c with
  | int10_02 =>
    cases hs
    exact shown_int10_02 h hask
  | int10_0E =>
    have hput : (int10 true m).1 = putchar m (m.r8l .eax) := by
      rw [int10, show m.r8h .eax = 0x0E from hask]
      rfl
    cases hs
    rw [hput]
    exact shown_putchar (t := .start m.mem) h (r8l_lt m .eax)
  | int21_02 =>
    cases hs
    exact shown_putchar (t := .start m.mem) h (r8l_lt m .edx)
  | int21_06 =>
    cases hs
    have hput : Shown (typeChar p (m.r8l .edx)) (putchar m (m.r8l .edx)).mem :=
      shown_putchar (t := .start m.mem) h (r8l_lt m .edx)
    exact Shown.frame_off hput (callbackSzf_off _ false) hb
  | int21_09 fuel =>
    obtain ⟨r, hr, heq⟩ := Option.map_eq_some_iff.mp hs
    cases heq
    rw [foldl_chars]
    exact shown_writeString _ _ h hr
  | int21_40 written =>
    simp only [Call.serve, Option.some.injEq, Prod.mk.injEq] at hs
    obtain ⟨rfl, rfl⟩ := hs
    rw [foldl_chars]
    have hput : Shown ((guestBytes m).foldl typeChar p) (FileHandles.int21_40 (putchars m (guestBytes m)) written).1.mem := by
      rw [int21_40_mem]
      exact shown_putchars (guestBytes_lt m) h
    exact hput.frame_off (setCf_off _ _) hb

end Calls

/-! ### Runs of calls -/

theorem shown_step {m₀ : Machine} {s s' : Console} {e : Event}
    (h : Shown (s.acts.foldl Act.apply (rollOf m₀.mem)) s.machine.mem) (hb : Beside s e) (hs : step s e s') :
    Shown (s'.acts.foldl Act.apply (rollOf m₀.mem)) s'.machine.mem := by
  cases e with
  | guest m' =>
    obtain rfl := hs
    exact h.frame hb
  | call c =>
    obtain ⟨hask, m', acts, hserve, rfl⟩ := hs
    rw [List.foldl_append]
    exact shown_serve h hask hb hserve

/-- **The screen is a window of the roll.**  After every run of console calls, with guest code in between that
    keeps off the screen, the cells are those of the window of the roll on which all the characters have been
    typed, and the cursor is at its head. -/
theorem console_shows_roll {m₀ m : Machine} {es : List Event} {acts : List Act}
    (h : Guarded step Beside ⟨m₀, []⟩ es ⟨m, acts⟩) :
    let p := acts.foldl Act.apply (rollOf m₀.mem)
    (∀ r < 25, ∀ c < 80, cells m.mem (r * 80 + c) = p.cell (p.top + r) c) ∧ cursor m.mem = (p.row, p.col) := by
  have hshown : Shown (acts.foldl Act.apply (rollOf m₀.mem)) m.mem :=
    h.invariant (P := fun s => Shown (s.acts.foldl Act.apply (rollOf m₀.mem)) s.machine.mem)
      (fun _ _ _ hs hb hstep => shown_step hs hb hstep) (shown_rollOf m₀.mem)
  exact ⟨hshown.shows.rows, hshown.head⟩

/-- A program about to write the letter A, with the cursor on the last cell of the screen. -/
def teletyping : Machine :=
  ({ bootMachine with mem := writew bootMachine.mem 0x450 0x184F } : Machine).setR16 .eax 0x0E41

/-- The letter is on the screen, and the program is about to write a B. -/
def teletyped : Machine := (int10 true teletyping).1.setR16 .eax 0x0E42

/-- The A ends the last line: the window moves on, and the B is on a line that is new. -/
theorem console_shows_roll_letters :
    let p := typeChar (typeChar (rollOf teletyping.mem) 0x41) 0x42
    p.top = 1 ∧ (p.row, p.col) = (24, 1) ∧
      (∀ r < 25, ∀ c < 80, cells (int10 true teletyped).1.mem (r * 80 + c) = p.cell (p.top + r) c) ∧
      cursor (int10 true teletyped).1.mem = (p.row, p.col) := by
  have hserve : ∀ m, Call.int10_0E.serve m = some ((int10 true m).1, [.char (m.r8l .eax)]) := fun _ => rfl
  have hA : teletyping.r8l .eax = 0x41 := by decide +kernel
  have hB : teletyped.r8l .eax = 0x42 := by decide +kernel
  have haskA : teletyping.r8h .eax = 0x0E := by decide +kernel
  have haskB : teletyped.r8h .eax = 0x0E := by decide +kernel
  have hstepA : step ⟨teletyping, []⟩ (.call .int10_0E) ⟨(int10 true teletyping).1, [.char 0x41]⟩ :=
    ⟨haskA, _, _, hA ▸ hserve teletyping, rfl⟩
  have hstepB : step ⟨teletyped, [.char 0x41]⟩ (.call .int10_0E) ⟨(int10 true teletyped).1, [.char 0x41, .char 0x42]⟩ :=
    ⟨haskB, _, _, hB ▸ hserve teletyped, rfl⟩
  have hbesideA : Beside ⟨teletyping, []⟩ (.call .int10_0E) := trivial
  have hbesideB : Beside ⟨teletyped, [.char 0x41]⟩ (.call .int10_0E) := trivial
  have hguest : Beside ⟨(int10 true teletyping).1, [.char 0x41]⟩ (.guest teletyped) := fun _ _ => rfl
  exact ⟨by decide +kernel, by decide +kernel,
    console_shows_roll (.cons hbesideA hstepA (.cons hguest rfl (.cons hbesideB hstepB (.nil _))))⟩

end Dosiz.ConsoleRoll
