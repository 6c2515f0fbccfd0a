/-
  Dosiz/ScreenWrites.lean
  =======================
  **Where the text services store** (INT 10h and the console output of `bridge.cc`).

  `screen_putchar` clamps the cursor before it uses it, AH=06 and AH=07 clamp their window, but AH=09 and AH=0A take
  the cursor word as the program left it, and a row below the screen is stored to behind the text buffer.  Without a
  window no character moves the cursor, so one that is outside stays there (`textServices_confined_iff`).
-/
import Dosiz.TextScreen
import Dosiz.Transition

namespace Dosiz.ScreenWrites

open ByteMemory Machine TracedMemory Transition TextScreen

/-! ### Runs -/

/-- A character of console output: with a window it goes to the text screen too. -/
def consoleOut (windowed : Bool) (c : UInt8) (m : Machine) : Machine × List Nat :=
  if windowed then stored m (screenPutchar c.toNat (.start m.mem)) else (m, [])

/-- What happens: the program sets its registers and its memory, calls INT 10h, or prints a character. -/
inductive ScreenEvent where
  | guest (m : Machine)
  | int10
  | output (c : UInt8)

/-- The machine, the addresses the host has stored to, and the cursor word after each character output. -/
structure ScreenState where
  m : Machine
  written : List Nat
  cursors : List Nat

def ScreenState.next (s : ScreenState) (r : Machine × List Nat) (isOutput : Bool) : ScreenState where
  m := r.1
  written := s.written ++ r.2
  cursors := s.cursors ++ if isOutput then [readw r.1.mem 0x450] else []

/-- The text calls of INT 10h. -/
def textCalls : List Nat := [0x02, 0x06, 0x07, 0x08, 0x09, 0x0A, 0x0E]

def screenStep (windowed : Bool) (s : ScreenState) : ScreenEvent → ScreenState → Prop
  | .guest m, s' => s' = { s with m := m }
  | .int10, s' => s.m.r8h .eax ∈ textCalls ∧ s' = s.next (int10 windowed s.m) (s.m.r8h .eax = 0x0E)
  | .output c, s' => s' = s.next (consoleOut windowed c s.m) true

def startScreen (m : Machine) : ScreenState := ⟨m, [], []⟩

/-! ### What the services should keep to -/

def OnScreen (pos : Nat) : Prop := pos / 256 < 25 ∧ pos % 256 < 80

/-- The text buffer and the cursor word. -/
def screenArea : Set Nat := { a | a ∈ textBuffer ∨ a = 0x450 ∨ a = 0x451 }

/-- All stores were to the screen, and each character left the cursor on it. -/
structure Confined (s : ScreenState) : Prop where
  written : ∀ a ∈ s.written, a ∈ screenArea
  cursors : ∀ pos ∈ s.cursors, OnScreen pos

/-- AH=09 and AH=0A come to a cursor that is in a row of the screen, or behind the last column.  A character comes to
    a cursor on the screen, or there is a window. -/
def Clean (windowed : Bool) (m : Machine) : ScreenEvent → Prop
  | .guest _ => True
  | .int10 =>
    (m.r8h .eax = 0x09 ∨ m.r8h .eax = 0x0A → readw m.mem 0x450 / 256 < 25 ∨ 80 ≤ readw m.mem 0x450 % 256) ∧
    (m.r8h .eax = 0x0E → windowed = true ∨ OnScreen (readw m.mem 0x450))
  | .output _ => windowed = true ∨ OnScreen (readw m.mem 0x450)

/-! ### A character -/

section Putchar

variable {c : Nat} {t : Traced}

theorem textBuffer_subset : textBuffer ⊆ screenArea := fun _ ha => .inl ha

theorem scrollLine_writes (t : Traced) : Writes textBuffer t (scrollLine t) := by
  have hcopied : ∀ i ∈ List.range 1920, i < 2000 := fun i hi => by
    have hlt := List.mem_range.mp hi
    omega
  have hblanked : ∀ i ∈ List.range' 1920 80, i < 2000 := fun i hi => by
    have hlt := List.mem_range'_1.mp hi
    omega
  exact (copyAll_writes _ hcopied).trans (putAll_writes (by decide) hblanked)

theorem setCursor_writes (t : Traced) (pos : Nat) : Writes screenArea t (t.writew 0x450 pos) :=
  Writes.writew t pos (.inr (.inl rfl)) (.inr (.inr rfl))

/-- A character moves the cursor to the next column, tab stop or row at most. -/
theorem afterChar_le {row col : Nat} (hrow : row ≤ 24) (hcol : col ≤ 79) :
    (afterChar c row col).1 ≤ 25 ∧ (afterChar c row col).2 ≤ 80 ∧
      ((afterChar c row col).2 = 80 → (afterChar c row col).1 ≤ 24) := by
  simp only [afterChar]
  split_ifs <;> simp only <;> omega

/-- A character stores to the text buffer and then sets the cursor to a cell of the screen. -/
theorem screenPutchar_spec (hc : c < 256) (t : Traced) :
    ∃ t₁ row col, Writes textBuffer t t₁ ∧ row ≤ 24 ∧ col ≤ 79 ∧
      screenPutchar c t = t₁.writew 0x450 (row * 256 + col) := by
  have hrow := clamp_le 24 (readw t.mem 0x450 / 256)
  have hcol := clamp_le 79 (readw t.mem 0x450 % 256)
  generalize hr : clamp 24 (readw t.mem 0x450 / 256) = row at hrow
  generalize hl : clamp 79 (readw t.mem 0x450 % 256) = col at hcol
  obtain ⟨hnextRow, hnextCol, hlast⟩ := afterChar_le (c := c) hrow hcol
  have hshown : Writes textBuffer t (if isShown c then putCell c textAttr t (row * 80 + col) else t) := by
    by_cases h : isShown c
    · rw [if_pos h]
      exact putCell_writes hc (by omega)
    · rw [if_neg h]
      exact Writes.refl _ _
  simp only [screenPutchar, hr, hl]
  generalize (if isShown c then putCell c textAttr t (row * 80 + col) else t) = t₁ at hshown
  by_cases hfull : 80 ≤ (afterChar c row col).2
  · rw [if_pos hfull]
    by_cases hbelow : 25 ≤ (afterChar c row col).1 + 1
    · rw [if_pos hbelow]
      exact ⟨_, 24, 0, hshown.trans (scrollLine_writes t₁), by decide, by decide, rfl⟩
    · rw [if_neg hbelow]
      exact ⟨t₁, _, 0, hshown, by omega, by decide, rfl⟩
  · rw [if_neg hfull]
    by_cases hbelow : 25 ≤ (afterChar c row col).1
    · rw [if_pos hbelow]
      exact ⟨_, 24, _, hshown.trans (scrollLine_writes t₁), by decide, by omega, rfl⟩
    · rw [if_neg hbelow]
      exact ⟨t₁, _, _, hshown, by omega, by omega, rfl⟩

theorem screenPutchar_writes (hc : c < 256) (t : Traced) : Writes screenArea t (screenPutchar c t) := by
  obtain ⟨t₁, row, col, hwrites, -, -, heq⟩ := screenPutchar_spec hc t
  rw [heq]
  exact (hwrites.mono textBuffer_subset).trans (setCursor_writes t₁ _)

theorem screenPutchar_cursor (hc : c < 256) (t : Traced) : OnScreen (readw (screenPutchar c t).mem 0x450) := by
  obtain ⟨t₁, row, col, -, hrow, hcol, heq⟩ := screenPutchar_spec hc t
  rw [heq, Traced.writew_mem, readw_writew, OnScreen]
  omega

end Putchar

/-! ### AH=09 and AH=0A -/

section WriteChars

variable {m : Machine}

theorem writeCells_writes {ch attr base n : Nat} (hch : ch < 256) (hn : n = 0 ∨ base + n ≤ 2000) :
    ∀ {t : Traced}, Writes textBuffer t ((List.range n).foldl (fun t i => putCell ch attr t (base + i)) t) := by
  intro t
  have hcells : ∀ j ∈ (List.range n).map (base + ·), j < 2000 := fun j hj => by
    obtain ⟨i, hi, rfl⟩ := List.mem_map.mp hj
    have hlt := List.mem_range.mp hi
    omega
  have hfold : Writes textBuffer t (((List.range n).map (base + ·)).foldl (putCell ch attr) t) :=
    putAll_writes hch hcells
  rwa [List.foldl_map] at hfold

theorem int10_09_0A_writes
    (h : readw m.mem 0x450 / 256 < 25 ∨ 80 ≤ readw m.mem 0x450 % 256) :
    Writes textBuffer (.start m.mem) (int10_09_0A m) := by
  refine writeCells_writes (r8l_lt m .eax) ?_
  omega

theorem putAll_written {ch attr a : Nat} {t : Traced} {ks : List Nat} :
    a ∈ (ks.foldl (putCell ch attr) t).written ↔ a ∈ t.written ∨ ∃ i ∈ ks, a = cellAddr i ∨ a = cellAddr i + 1 := by
  induction ks generalizing t with
  | nil => simp
  | cons i ks ih =>
    rw [List.foldl_cons, ih]
    simp [putCell, Traced.writeb, or_assoc]

/-- In a row below the screen the first cell is stored to, and it is outside. -/
theorem int10_09_0A_outside (hrow : 25 ≤ readw m.mem 0x450 / 256) (hcol : readw m.mem 0x450 % 256 < 80) :
    ∃ a ∈ (int10_09_0A m).written, a ∉ screenArea := by
  have hcount : 1 ≤ if m.cx = 0 then 1 else m.cx := by
    by_cases h : m.cx = 0
    · rw [if_pos h]
    · rw [if_neg h]
      exact Nat.one_le_iff_ne_zero.mpr h
  refine ⟨cellAddr (readw m.mem 0x450 / 256 * 80 + readw m.mem 0x450 % 256), ?_, ?_⟩
  · rw [int10_09_0A, ← List.foldl_map (f := fun i => readw m.mem 0x450 / 256 * 80 + readw m.mem 0x450 % 256 + i)]
    refine putAll_written.mpr (.inr ⟨_, List.mem_map.mpr ⟨0, List.mem_range.mpr (by omega), rfl⟩, .inl rfl⟩)
  · simp only [cellAddr]
    rintro (⟨-, hhigh⟩ | h | h) <;> omega

end WriteChars

/-! ### Steps -/

section Steps

variable {windowed : Bool} {s s' : ScreenState} {e : ScreenEvent}

/-- A call that stores to the screen only, and whose character leaves the cursor there. -/
theorem Confined.next {r : Machine × List Nat} {isOutput : Bool} (h : Confined s) (hwritten : ∀ a ∈ r.2, a ∈ screenArea)
    (hcursor : isOutput = true → OnScreen (readw r.1.mem 0x450)) : Confined (s.next r isOutput) where
  written := fun a ha => (List.mem_append.mp ha).elim (h.written a) (hwritten a)
  cursors := fun pos hpos => by
    rcases List.mem_append.mp hpos with hpos | hpos
    · exact h.cursors pos hpos
    · cases isOutput with
      | true => exact List.mem_singleton.mp hpos ▸ hcursor rfl
      | false => cases hpos

theorem writes_screen {m : Machine} {t : Traced} (h : Writes screenArea (.start m.mem) t) :
    ∀ a ∈ (stored m t).2, a ∈ screenArea :=
  h.written fun _ ha => absurd ha List.not_mem_nil

theorem int10_09_eq {m : Machine} (h : m.r8h .eax = 0x09 ∨ m.r8h .eax = 0x0A) :
    int10 windowed m = stored m (int10_09_0A m) := by
  rcases h with h | h <;>
  · rw [int10, h]
    rfl

theorem int10_0E_eq {m : Machine} (h : m.r8h .eax = 0x0E) :
    int10 windowed m = if windowed then stored m (screenPutchar (m.r8l .eax) (.start m.mem)) else (m, []) := by
  rw [int10, h]
  rfl

/-- A character keeps to the screen, with a window or with a cursor that is there already. -/
theorem putchar_confined {m : Machine} {c : Nat} (hc : c < 256) (hclean : windowed = true ∨ OnScreen (readw m.mem 0x450)) :
    let r := if windowed then stored m (screenPutchar c (.start m.mem)) else (m, [])
    (∀ a ∈ r.2, a ∈ screenArea) ∧ OnScreen (readw r.1.mem 0x450) := by
  cases windowed with
  | true => exact ⟨writes_screen (screenPutchar_writes hc _), screenPutchar_cursor hc _⟩
  | false => exact ⟨fun a ha => (List.not_mem_nil ha).elim, hclean.resolve_left (by decide)⟩

/-- The addresses of a text call, and the cursor behind AH=0E. -/
theorem int10_confined {m : Machine} (hcall : m.r8h .eax ∈ textCalls) (hclean : Clean windowed m .int10) :
    (∀ a ∈ (int10 windowed m).2, a ∈ screenArea) ∧
      (m.r8h .eax = 0x0E → OnScreen (readw (int10 windowed m).1.mem 0x450)) := by
  obtain ⟨hcells, hchar⟩ := hclean
  by_cases h0E : m.r8h .eax = 0x0E
  · rw [int10_0E_eq h0E]
    obtain ⟨hwritten, hcursor⟩ := putchar_confined (r8l_lt m .eax) (hchar h0E)
    exact ⟨hwritten, fun _ => hcursor⟩
  · refine ⟨?_, fun h => absurd h h0E⟩
    have hcase : m.r8h .eax = 0x02 ∨ (m.r8h .eax = 0x06 ∨ m.r8h .eax = 0x07) ∨ m.r8h .eax = 0x08 ∨
        (m.r8h .eax = 0x09 ∨ m.r8h .eax = 0x0A) := by
      simp only [textCalls, List.mem_cons, List.not_mem_nil, or_false, h0E] at hcall
      tauto
    rcases hcase with h | h | h | h
    · rw [int10, h]
      exact writes_screen (setCursor_writes _ _)
    · rw [int10_scroll_eq windowed h]
      exact writes_screen ((int10_06_07_writes m).mono textBuffer_subset)
    · rw [int10, h]
      exact fun a ha => (List.not_mem_nil ha).elim
    · rw [int10_09_eq h]
      exact writes_screen ((int10_09_0A_writes (hcells h)).mono textBuffer_subset)

/-- A clean step keeps to the screen. -/
theorem screenStep_confined (h : Confined s) (hclean : Clean windowed s.m e) (hstep : screenStep windowed s e s') :
    Confined s' := by
  cases e with
  | guest m =>
    cases hstep
    exact ⟨h.written, h.cursors⟩
  | int10 =>
    obtain ⟨hcall, rfl⟩ := hstep
    obtain ⟨hwritten, hcursor⟩ := int10_confined hcall hclean
    exact h.next hwritten fun h0E => hcursor (of_decide_eq_true h0E)
  | output c =>
    cases hstep
    obtain ⟨hwritten, hcursor⟩ := putchar_confined c.toNat_lt hclean
    exact h.next hwritten fun _ => hcursor

/-- What has been recorded stays recorded. -/
theorem screenStep_grows (hstep : screenStep windowed s e s') (h : Confined s') : Confined s := by
  have hnext : ∀ {r b}, s' = s.next r b → Confined s := by
    rintro r b rfl
    exact ⟨fun a ha => h.written a (List.mem_append_left _ ha),
      fun pos hpos => h.cursors pos (List.mem_append_left _ hpos)⟩
  cases e with
  | guest m =>
    cases hstep
    exact ⟨h.written, h.cursors⟩
  | int10 => exact hnext hstep.2
  | output c => exact hnext hstep

/-- A step that is not clean leaves the screen. -/
theorem screenStep_clean (hstep : screenStep windowed s e s') (h : Confined s') : Clean windowed s.m e := by
  -- without a window the cursor behind a character is the one before it
  have hkept : ∀ {r : Machine × List Nat}, s' = s.next r true → (windowed = false → r.1 = s.m) →
      windowed = true ∨ OnScreen (readw s.m.mem 0x450) := by
    rintro r rfl hsame
    cases windowed with
    | true => exact .inl rfl
    | false =>
      have hlast := h.cursors (readw r.1.mem 0x450) (List.mem_append_right _ List.mem_cons_self)
      rw [hsame rfl] at hlast
      exact .inr hlast
  cases e with
  | guest m => trivial
  | int10 =>
    obtain ⟨-, hs'⟩ := hstep
    refine ⟨fun hah => ?_, fun h0E => ?_⟩
    · by_contra hout
      obtain ⟨hrow, hcol⟩ := not_or.mp hout
      obtain ⟨a, ha, hoff⟩ := int10_09_0A_outside (Nat.not_lt.mp hrow) (Nat.not_le.mp hcol)
      rw [int10_09_eq hah] at hs'
      rw [hs'] at h
      exact hoff (h.written a (List.mem_append_right _ ha))
    · rw [decide_eq_true h0E] at hs'
      refine hkept hs' fun hw => ?_
      rw [int10_0E_eq h0E, hw]
      rfl
  | output c =>
    refine hkept hstep fun hw => ?_
    rw [consoleOut, hw]
    rfl

/-- A run that has kept to the screen did so at every step. -/
theorem confined_guarded {es : List ScreenEvent} (hrun : Run (screenStep windowed) s es s') (h : Confined s') :
    Confined s ∧ Guarded (screenStep windowed) (fun s e => Clean windowed s.m e) s es s' := by
  induction hrun with
  | nil s => exact ⟨h, .nil s⟩
  | cons hstep _ ih =>
    obtain ⟨hconf, hguard⟩ := ih h
    exact ⟨screenStep_grows hstep hconf, .cons (screenStep_clean hstep hconf) hstep hguard⟩

end Steps

/-! ### Runs that keep to the screen -/

/-- **A run keeps to the screen exactly when every step is clean.** -/
theorem textServices_confined_iff (windowed : Bool) (m : Machine) (es : List ScreenEvent) (t : ScreenState)
    (hrun : Run (screenStep windowed) (startScreen m) es t) :
    Confined t ↔ Guarded (screenStep windowed) (fun s e => Clean windowed s.m e) (startScreen m) es t := by
  have hstart : Confined (startScreen m) :=
    ⟨fun _ ha => absurd ha List.not_mem_nil, fun _ hpos => absurd hpos List.not_mem_nil⟩
  exact ⟨fun h => (confined_guarded hrun h).2, fun hguard =>
    hguard.invariant (fun _ _ _ h hclean hstep => screenStep_confined h hclean hstep) hstart⟩

/-- AX of a call, with row and column in DX and one cell in CX. -/
def textRegs (ax dx : BitVec 32) : Machine :=
  bootMachine.setRegs fun
    | .eax => ax
    | .ecx => 1
    | .edx => dx
    | _ => 0

/-- The program sets the registers of `r` and keeps its memory. -/
def retyped (m r : Machine) : Machine := r.setMem m.mem

/-- AH=02 sets the cursor to the last cell, and AH=0E writes an `A` there, on which the screen scrolls, and a `B`. -/
theorem textServices_confined_typed :
    let m₀ := textRegs 0x0200 0x184F
    let m₁ := retyped (int10 true m₀).1 (textRegs 0x0E41 0)
    let m₂ := retyped (int10 true m₁).1 (textRegs 0x0E42 0)
    ∃ t, Run (screenStep true) (startScreen m₀) [.int10, .guest m₁, .int10, .guest m₂, .int10] t ∧ Confined t := by
  intro m₀ m₁ m₂
  have h₀ : m₀.r8h .eax = 0x02 := by decide +kernel
  have h₁ : m₁.r8h .eax = 0x0E := (show m₁.r8h .eax = (textRegs 0x0E41 0).r8h .eax from rfl).trans (by decide +kernel)
  have h₂ : m₂.r8h .eax = 0x0E := (show m₂.r8h .eax = (textRegs 0x0E42 0).r8h .eax from rfl).trans (by decide +kernel)
  have hcalls : ∀ {m : Machine}, m.r8h .eax = 0x02 ∨ m.r8h .eax = 0x0E →
      m.r8h .eax ∈ textCalls ∧ Clean true m .int10 := by
    rintro m (h | h)
    · refine ⟨by rw [h]; decide, fun hc => ?_, fun hc => ?_⟩ <;> rw [h] at hc <;> omega
    · refine ⟨by rw [h]; decide, fun hc => ?_, fun _ => .inl rfl⟩
      rw [h] at hc
      omega
  obtain ⟨hm₀, hc₀⟩ := hcalls (.inl h₀)
  obtain ⟨hm₁, hc₁⟩ := hcalls (.inr h₁)
  obtain ⟨hm₂, hc₂⟩ := hcalls (.inr h₂)
  have hguard : Guarded (screenStep true) (fun s e => Clean true s.m e) (startScreen m₀)
      [.int10, .guest m₁, .int10, .guest m₂, .int10] _ :=
    .cons hc₀ ⟨hm₀, rfl⟩ (.cons trivial rfl (.cons hc₁ ⟨hm₁, rfl⟩ (.cons trivial rfl
      (.cons hc₂ ⟨hm₂, rfl⟩ (.nil _)))))
  have hrun : Run (screenStep true) (startScreen m₀) [.int10, .guest m₁, .int10, .guest m₂, .int10] _ :=
    .cons ⟨hm₀, rfl⟩ (.cons rfl (.cons ⟨hm₁, rfl⟩ (.cons rfl (.cons ⟨hm₂, rfl⟩ (.nil _)))))
  exact ⟨_, hrun, (textServices_confined_iff true m₀ _ _ hrun).mpr hguard⟩

/-- AH=02 sets the cursor to row 25, below the screen, and AH=0A stores a character there. -/
theorem textServices_row_25 : ¬ ∀ (windowed : Bool) (m : Machine) (es : List ScreenEvent) (t : ScreenState),
    Run (screenStep windowed) (startScreen m) es t → Confined t := by
  intro h
  have hrun : Run (screenStep true) (startScreen (textRegs 0x0200 0x1900))
      [.int10, .guest ((textRegs 0x0A41 0).setMem (int10 true (textRegs 0x0200 0x1900)).1.mem), .int10] _ :=
    .cons ⟨by decide +kernel, rfl⟩ (.cons rfl (.cons ⟨by decide +kernel, rfl⟩ (.nil _)))
  have hbehind := (h _ _ _ _ hrun).written 0xB8FA0 (by decide +kernel)
  rcases hbehind with ⟨-, hhigh⟩ | h | h
  · exact absurd hhigh (by decide)
  · exact absurd h (by decide)
  · exact absurd h (by decide)

end Dosiz.ScreenWrites
