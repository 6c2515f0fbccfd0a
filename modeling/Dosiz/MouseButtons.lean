/-
  Dosiz/MouseButtons.lean
  =======================
  **The buttons of the mouse** (`dosiz_mouse_event` and AX=5, AX=6 of `dosiz_int33`, `bridge.cc`).

  The window library reports the state of the buttons with each event; a program asks how often a
  button went down or up since it asked last.  However events and calls are interleaved, no click is lost and none
  is counted twice (`clicks_counted`).
-/
import Dosiz.MousePosition

namespace Dosiz.MouseButtons

open Machine Transition VesaModes MousePosition

/-! ### A line and its edges -/

/-- How often a line goes up that starts at `level` and takes the levels `ls`. -/
def rises (level : Bool) : List Bool → Nat
  | [] => 0
  | l :: ls => (if l && !level then 1 else 0) + rises l ls

/-- How often it goes down. -/
def falls (level : Bool) : List Bool → Nat
  | [] => 0
  | l :: ls => (if level && !l then 1 else 0) + falls l ls

/-- The level it ends at. -/
def lastLevel (level : Bool) : List Bool → Bool
  | [] => level
  | l :: ls => lastLevel l ls

/-- The edges of a line alternate. -/
theorem rises_add (level : Bool) (ls : List Bool) :
    level.toNat + rises level ls = (lastLevel level ls).toNat + falls level ls := by
  induction ls generalizing level with
  | nil => rfl
  | cons l ls ih =>
    have hrest := ih l
    simp only [rises, falls, lastLevel]
    cases level <;> cases l <;> simp at hrest ⊢ <;> omega

theorem rises_singleton (level l : Bool) : rises level [l] = if l && !level then 1 else 0 := rfl

theorem falls_singleton (level l : Bool) : falls level [l] = if level && !l then 1 else 0 := rfl

theorem lastLevel_append (level : Bool) (ls ls' : List Bool) :
    lastLevel level (ls ++ ls') = lastLevel (lastLevel level ls) ls' := by
  induction ls generalizing level with
  | nil => rfl
  | cons l ls ih => exact ih l

theorem rises_append (level : Bool) (ls ls' : List Bool) :
    rises level (ls ++ ls') = rises level ls + rises (lastLevel level ls) ls' := by
  induction ls generalizing level with
  | nil => exact (Nat.zero_add _).symm
  | cons l ls ih =>
    rw [List.cons_append, rises, ih, rises, Nat.add_assoc]
    rfl

theorem falls_append (level : Bool) (ls ls' : List Bool) :
    falls level (ls ++ ls') = falls level ls + falls (lastLevel level ls) ls' := by
  induction ls generalizing level with
  | nil => exact (Nat.zero_add _).symm
  | cons l ls ih =>
    rw [List.cons_append, falls, ih, falls, Nat.add_assoc]
    rfl

/-! ### Events and calls -/

/-- `call` comes with the function, the button that BX names and the answer in BX. -/
inductive ButtonEvent where
  | host (buttons : Nat)
  | call (function : Nat) (button : Fin 3) (answer : Nat)
deriving DecidableEq

/-- Every call but a reset of a driver that has a window. -/
def buttonStep (windowed : Bool) (s : MouseState) (e : ButtonEvent) (s' : MouseState) : Prop :=
  match e with
  | .host buttons => ∃ v hostX hostY, s' = mouseEvent v s hostX hostY buttons
  | .call function button answer => ∃ v m, (windowed = true → m.ax ≠ 0x0000) ∧ s' = (int33 windowed v s m).1 ∧
      function = m.ax ∧ button = buttonOf m ∧ answer = (int33 windowed v s m).2.bx

/-- The levels of a button's bit in the host's events. -/
def levels (b : Fin 3) (es : List ButtonEvent) : List Bool :=
  es.filterMap fun
    | .host buttons => some (buttons.testBit b)
    | .call _ _ _ => none

/-- What the calls of a function have answered about a button, added up. -/
def answers (function : Nat) (b : Fin 3) (es : List ButtonEvent) : Nat :=
  (es.map fun
    | .host _ => 0
    | .call f button answer => if f = function ∧ button = b then answer else 0).sum

/-! ### One step -/

section Steps

variable {windowed : Bool} {s s' : MouseState}

theorem edgeOf_count (before now : Nat) (pos : Int × Int) (e : Fin 3 → Edge) (b : Fin 3) :
    (edgeOf before now pos e b).count = (e b).count + if now.testBit b && !before.testBit b then 1 else 0 := by
  rw [edgeOf]
  split_ifs <;> simp

/-- What a call leaves of the buttons and of the counts. -/
structure CallLeaves (s s' : MouseState) (function : Nat) (button : Fin 3) (answer : Nat) : Prop where
  buttons : s'.hostButtons = s.hostButtons
  press : ∀ b, (s'.press b).count = if function = 0x0005 ∧ button = b then 0 else (s.press b).count
  release : ∀ b, (s'.release b).count = if function = 0x0006 ∧ button = b then 0 else (s.release b).count
  pressed : function = 0x0005 → answer = word (s.press button).count
  released : function = 0x0006 → answer = word (s.release button).count

theorem edgeRegs_bx (s : MouseState) (e : Edge) (m : Machine) : (edgeRegs s e m).bx = word e.count := by
  have hword := word_lt e.count
  simp only [bx, edgeRegs, setR16s, List.foldl_cons, List.foldl_nil]
  rw [r16_setR16_of_ne _ _ (by decide), r16_setR16_of_ne _ _ (by decide), r16_setR16]
  exact Nat.mod_eq_of_lt hword

/-- A call that asks for neither. -/
theorem CallLeaves.other {function : Nat} (button : Fin 3) (answer : Nat) (hbuttons : s'.hostButtons = s.hostButtons)
    (hpress : s'.press = s.press) (hrelease : s'.release = s.release) (h₅ : function ≠ 0x0005)
    (h₆ : function ≠ 0x0006) : CallLeaves s s' function button answer := by
  refine ⟨hbuttons, fun b => ?_, fun b => ?_, fun h => absurd h h₅, fun h => absurd h h₆⟩
  · rw [hpress, if_neg fun h => h₅ h.1]
  · rw [hrelease, if_neg fun h => h₆ h.1]

theorem update_count (e : Fin 3 → Edge) (button b : Fin 3) :
    (Function.update e button { e button with count := 0 } b).count = if button = b then 0 else (e b).count := by
  by_cases h : button = b
  · subst h
    rw [Function.update_self, if_pos rfl]
  · rw [Function.update_of_ne (Ne.symm h), if_neg h]

theorem int33_leaves {v : Video} {m : Machine} (hreset : windowed = true → m.ax ≠ 0x0000) :
    CallLeaves s (int33 windowed v s m).1 m.ax (buttonOf m) (int33 windowed v s m).2.bx := by
  rw [int33]
  split
  next hax =>
    cases windowed with
    | true => exact absurd hax (hreset rfl)
    | false => exact .other _ _ rfl rfl rfl (by omega) (by omega)
  next hax => exact .other _ _ rfl rfl rfl (by omega) (by omega)
  next hax => exact .other _ _ rfl rfl rfl (by omega) (by omega)
  next hax => exact .other _ _ rfl rfl rfl (by omega) (by omega)
  next hax => exact .other _ _ rfl rfl rfl (by omega) (by omega)
  next hax =>
    refine ⟨rfl, fun b => ?_, fun b => ?_, fun _ => edgeRegs_bx _ _ _, fun h => absurd h (by omega)⟩
    · simp only [hax, true_and]
      exact update_count (poll v s).press (buttonOf m) b
    · rw [if_neg fun h => absurd h.1 (by omega)]
      rfl
  next hax =>
    refine ⟨rfl, fun b => ?_, fun b => ?_, fun h => absurd h (by omega), fun _ => edgeRegs_bx _ _ _⟩
    · rw [if_neg fun h => absurd h.1 (by omega)]
      rfl
    · simp only [hax, true_and]
      exact update_count (poll v s).release (buttonOf m) b
  next hax => exact .other _ _ rfl rfl rfl (by omega) (by omega)
  next hax => exact .other _ _ rfl rfl rfl (by omega) (by omega)
  next hax => exact .other _ _ rfl rfl rfl (by omega) (by omega)
  next => exact .other _ _ rfl rfl rfl (by assumption) (by assumption)

/-- What the events say of a button is what its counts say, and what has been answered. -/
structure Counted (b : Fin 3) (s : MouseState) (es : List ButtonEvent) (s' : MouseState) : Prop where
  level : s'.hostButtons.testBit b = lastLevel (s.hostButtons.testBit b) (levels b es)
  press : (answers 0x0005 b es + (s'.press b).count) % 65536 =
    ((s.press b).count + rises (s.hostButtons.testBit b) (levels b es)) % 65536
  release : (answers 0x0006 b es + (s'.release b).count) % 65536 =
    ((s.release b).count + falls (s.hostButtons.testBit b) (levels b es)) % 65536

/-- An answer and what it leaves unread, of what was unread. -/
theorem answer_mod {function f : Nat} {button b : Fin 3} {answer : Nat} {count count' : Int}
    (hcount : count' = if function = f ∧ button = b then 0 else count)
    (hanswer : function = f → button = b → answer = word count) :
    ((if function = f ∧ button = b then answer else 0 : Nat) + count') % 65536 = count % 65536 := by
  rw [hcount]
  split_ifs with h
  · rw [hanswer h.1 h.2, word]
    omega
  · omega

theorem counted_step (b : Fin 3) {e : ButtonEvent} (h : buttonStep windowed s e s') : Counted b s [e] s' := by
  cases e with
  | host buttons =>
    obtain ⟨v, hostX, hostY, rfl⟩ := h
    have hlevels : levels b [.host buttons] = [buttons.testBit b] := rfl
    have hanswers : ∀ function, answers function b [.host buttons] = 0 := fun _ => rfl
    refine ⟨rfl, ?_, ?_⟩
    · rw [hlevels, hanswers, mouseEvent, edgeOf_count, rises_singleton]
      split_ifs <;> simp
    · rw [hlevels, hanswers, mouseEvent, edgeOf_count, falls_singleton]
      split_ifs <;> simp
  | call function button answer =>
    obtain ⟨v, m, hreset, rfl, rfl, rfl, rfl⟩ := h
    have hleaves := int33_leaves (s := s) (v := v) hreset
    refine ⟨congrArg (·.testBit b) hleaves.buttons, ?_, ?_⟩
    · simpa [answers, levels, rises] using answer_mod (hleaves.press b) fun h hb => hb ▸ hleaves.pressed h
    · simpa [answers, levels, falls] using answer_mod (hleaves.release b) fun h hb => hb ▸ hleaves.released h

theorem answers_cons (function : Nat) (b : Fin 3) (e : ButtonEvent) (es : List ButtonEvent) :
    answers function b (e :: es) = answers function b [e] + answers function b es := by
  simp [answers]

theorem levels_cons (b : Fin 3) (e : ButtonEvent) (es : List ButtonEvent) :
    levels b (e :: es) = levels b [e] ++ levels b es :=
  @List.filterMap_append _ _ [e] es _

theorem counted_cons {b : Fin 3} {e : ButtonEvent} {es : List ButtonEvent} {t : MouseState}
    (h₁ : Counted b s [e] t) (h₂ : Counted b t es s') : Counted b s (e :: es) s' := by
  have hpress := h₁.press
  have hpress' := h₂.press
  have hrelease := h₁.release
  have hrelease' := h₂.release
  refine ⟨?_, ?_, ?_⟩
  · rw [h₂.level, h₁.level, levels_cons b e es, lastLevel_append]
  · rw [answers_cons, levels_cons b e es, rises_append, ← h₁.level]
    push_cast
    omega
  · rw [answers_cons, levels_cons b e es, falls_append, ← h₁.level]
    push_cast
    omega

end Steps

/-! ### Whole runs -/

/-- **No click is lost and none is counted twice.**  In every run: what AX=5 has answered about a button and
    what it would answer now make up, in sixteen bits, the times the button went down and what was unread at the start;
    likewise AX=6 and the times it went up.  The two differ by where the button is. -/
theorem clicks_counted {windowed : Bool} {s s' : MouseState} {es : List ButtonEvent}
    (h : Run (buttonStep windowed) s es s') (b : Fin 3) :
    (answers 0x0005 b es + (s'.press b).count) % 65536 =
        ((s.press b).count + rises (s.hostButtons.testBit b) (levels b es)) % 65536 ∧
      (answers 0x0006 b es + (s'.release b).count) % 65536 =
        ((s.release b).count + falls (s.hostButtons.testBit b) (levels b es)) % 65536 ∧
      (s.hostButtons.testBit b).toNat + rises (s.hostButtons.testBit b) (levels b es) =
        (s'.hostButtons.testBit b).toNat + falls (s.hostButtons.testBit b) (levels b es) := by
  have hcounted : Counted b s es s' := by
    induction h with
    | nil s => exact ⟨rfl, by simp [answers, levels, rises], by simp [answers, levels, falls]⟩
    | cons hstep _ ih => exact counted_cons (counted_step b hstep) ih
  refine ⟨hcounted.press, hcounted.release, ?_⟩
  rw [hcounted.level]
  exact rises_add _ _

/-- The mouse after a click and a call of AX=5. -/
def clicked : MouseState :=
  (int33 true bootVideo (mouseEvent bootVideo (mouseEvent bootVideo bootMouse 0 0 1) 0 0 0) (mouseRegs 5 0 0)).1

/-- The call has answered the click, and the button is up again. -/
theorem clicks_counted_click :
    Run (buttonStep true) bootMouse [.host 1, .host 0, .call 5 0 1] clicked ∧
      ((1 : Nat) + (clicked.press 0).count) % 65536 = (0 + rises false [true, false]) % 65536 := by
  have hrun : Run (buttonStep true) bootMouse [.host 1, .host 0, .call 5 0 1] clicked :=
    .cons ⟨bootVideo, 0, 0, rfl⟩ (.cons ⟨bootVideo, 0, 0, rfl⟩ (.single ⟨bootVideo, mouseRegs 5 0 0,
      fun _ => by decide +kernel, rfl, by decide +kernel, by decide +kernel, by decide +kernel⟩))
  exact ⟨hrun, (clicks_counted hrun 0).1⟩

end Dosiz.MouseButtons
