/-
  Dosiz/MousePosition.lean
  ========================
  **The mouse** (`mouse_to_virtual`, `dosiz_mouse_event` and `dosiz_int33` of `bridge.cc`).

  The position is kept in pixels of the frame.  AX=4 scales what the program sets to pixels, and every call scales the
  pixels back; both truncate.  The position comes back where the frame has a pixel for it.  AX=4 also takes a negative
  coordinate for a large one, which comes back as the end of the range (`mousePosition_iff`).
-/
import Dosiz.Rescale
import Dosiz.VesaModes

namespace Dosiz.MousePosition

open Machine Transition VesaModes Rescale

/-! ### The state -/

/-- The edges of a button: how often, and where the last one was. -/
structure Edge where
  count : Int
  x : Int
  y : Int

structure MouseState where
  hostX : Int
  hostY : Int
  hostButtons : Nat
  x : Int
  y : Int
  buttons : Nat
  visible : Bool
  minX : Int
  maxX : Int
  minY : Int
  maxY : Int
  press : Fin 3 → Edge
  release : Fin 3 → Edge

def bootMouse : MouseState :=
  ⟨0, 0, 0, 0, 0, 0, false, 0, 639, 0, 199, fun _ => ⟨0, 0, 0⟩, fun _ => ⟨0, 0, 0⟩⟩

/-- A cast to `int`, and a sum of two. -/
def int32 (x : Int) : Int := x.bmod 4294967296

/-- A cast to `int16_t`. -/
def int16 (w : Nat) : Int := if w < 32768 then w else (w : Int) - 65536

/-- An `int` in a word register. -/
def word (x : Int) : Nat := (x % 65536).toNat

/-! ### The two scalings -/

def clampTo (min max x : Int) : Int :=
  let x := if x < min then min else x
  if max < x then max else x

/-- `mouse_to_virtual` of one coordinate, in a frame of `size` pixels. -/
def toVirtual (size : Nat) (min max host : Int) : Int :=
  clampTo min max (if 1 < size then int32 (min + int32 ((host * (max - min)).tdiv (size - 1))) else min)

/-- AX=4 for one coordinate. -/
def toHost (size : Nat) (min max : Int) (set : Nat) : Int :=
  if 0 < max - min then int32 (((set - min) * (size - 1)).tdiv (max - min)) else 0

def mouseToVirtual (v : Video) (s : MouseState) (hostX hostY : Int) : Int × Int :=
  (toVirtual (frameDims v).1 s.minX s.maxX hostX, toVirtual (frameDims v).2 s.minY s.maxY hostY)

/-! ### Events and calls -/

/-- A button goes down or up: the bit is set in `now` and not in `before`. -/
def edgeOf (before now : Nat) (pos : Int × Int) (e : Fin 3 → Edge) (b : Fin 3) : Edge :=
  if now.testBit b && !before.testBit b then ⟨(e b).count + 1, pos.1, pos.2⟩ else e b

def mouseEvent (v : Video) (s : MouseState) (hostX hostY : Int) (buttons : Nat) : MouseState :=
  let pos := mouseToVirtual v s hostX hostY
  { s with
    hostX := hostX, hostY := hostY, hostButtons := buttons
    press := edgeOf s.hostButtons buttons pos s.press
    release := edgeOf buttons s.hostButtons pos s.release }

/-- The position and the buttons of the last event, as every call first reads them. -/
def poll (v : Video) (s : MouseState) : MouseState :=
  let pos := mouseToVirtual v s s.hostX s.hostY
  { s with x := pos.1, y := pos.2, buttons := s.hostButtons }

def noEdges (e : Fin 3 → Edge) (b : Fin 3) : Edge := { e b with count := 0 }

/-- The button that BX names. -/
def buttonOf (m : Machine) : Fin 3 :=
  match m.bx % 4 with
  | 1 => 1
  | 2 => 2
  | _ => 0

/-- AX=5 and AX=6. -/
def edgeRegs (s : MouseState) (e : Edge) (m : Machine) : Machine :=
  m.setR16s [(.eax, s.buttons), (.ebx, word e.count), (.ecx, word e.x), (.edx, word e.y)]

def int33 (windowed : Bool) (v : Video) (s : MouseState) (m : Machine) : MouseState × Machine :=
  let s := poll v s
  match m.ax with
  | 0x0000 =>
    if windowed then
      ({ s with
          visible := false, minX := 0, maxX := 639, minY := 0, maxY := 199
          press := noEdges s.press, release := noEdges s.release },
        m.setR16s [(.eax, 0xFFFF), (.ebx, 3)])
    else (s, m.setR16s [(.eax, 0), (.ebx, 0)])
  | 0x0001 => ({ s with visible := true }, m)
  | 0x0002 => ({ s with visible := false }, m)
  | 0x0003 => (s, m.setR16s [(.ebx, s.buttons), (.ecx, word s.x), (.edx, word s.y)])
  | 0x0004 =>
    ({ s with
        hostX := toHost (frameDims v).1 s.minX s.maxX m.cx
        hostY := toHost (frameDims v).2 s.minY s.maxY m.dx }, m)
  | 0x0005 =>
    let b := buttonOf m
    ({ s with press := Function.update s.press b { s.press b with count := 0 } }, edgeRegs s (s.press b) m)
  | 0x0006 =>
    let b := buttonOf m
    ({ s with release := Function.update s.release b { s.release b with count := 0 } }, edgeRegs s (s.release b) m)
  | 0x0007 => ({ s with minX := int16 m.cx, maxX := int16 m.dx }, m)
  | 0x0008 => ({ s with minY := int16 m.cx, maxY := int16 m.dx }, m)
  | 0x000B => (s, m.setR16s [(.ecx, 0), (.edx, 0)])
  | _ => (s, m)

/-! ### What comes back -/

/-- A range of 16-bit coordinates, as AX=7 and AX=8 set it. -/
structure RangeOk (min max : Int) : Prop where
  low : -32768 ≤ min
  lt : min < max
  high : max ≤ 32767

/-- The coordinate `set` of AX=4 comes back: it is not negative and the frame has a pixel for it, or it is negative and
    the end of the range. -/
def ComesBack (size : Nat) (min max : Int) (set : Nat) : Prop :=
  if set < 32768 then max - min ∣ (int16 set - min) * (size - 1) else int16 set = max

instance (size : Nat) (min max : Int) (set : Nat) : Decidable (ComesBack size min max set) :=
  inferInstanceAs (Decidable (if set < 32768 then max - min ∣ (int16 set - min) * (size - 1) else int16 set = max))

/-! ### One coordinate -/

section Coordinate

variable {lo hi : Int} {n : Nat}

theorem int32_of_range {x : Int} (h : -2147483648 ≤ x ∧ x < 2147483648) : int32 x = x :=
  Int.bmod_eq_of_le h.1 h.2

theorem size_pred (n : Nat) : ((n + 1 : Nat) : Int) - 1 = n := by omega

/-- A coordinate that a register can hold is scaled to pixels. -/
theorem toHost_eq {r d set : Nat} (hr : 0 < r) (hmax : hi = lo + r) (hset : (set : Int) = lo + d) (hn : n ≤ 1279)
    (hd : d ≤ 98303) : toHost (n + 1) lo hi set = scale r n d := by
  have hoff : (set : Int) - lo = d := by omega
  have hwidth : hi - lo = (r : Int) := by omega
  have hle : scale r n d ≤ 98303 * 1279 := (Nat.div_le_self _ _).trans (Nat.mul_le_mul hd hn)
  have hscale : ((d : Int) * n).tdiv r = scale r n d := by
    rw [← Int.natCast_mul]
    exact (Int.ofNat_tdiv _ _).symm
  rw [toHost, hwidth, if_pos (by omega), hoff, size_pred, hscale]
  exact int32_of_range ⟨by omega, by omega⟩

/-- Pixels are scaled back, and cut off at the end of the range. -/
theorem toVirtual_eq {r q : Nat} (hn : 0 < n) (hmax : hi = lo + r) (hrange : RangeOk lo hi)
    (hq : scale n r q ≤ 98303) : toVirtual (n + 1) lo hi q = lo + (min r (scale n r q) : Nat) := by
  obtain ⟨hlow, -, hhigh⟩ := hrange
  have hwidth : hi - lo = (r : Int) := by omega
  have hscale : ((q : Int) * r).tdiv n = scale n r q := by
    rw [← Int.natCast_mul]
    exact (Int.ofNat_tdiv _ _).symm
  have hsize : 1 < n + 1 := by omega
  have hcast : int32 (scale n r q : Int) = scale n r q := int32_of_range ⟨by omega, by omega⟩
  have hsum : int32 (lo + scale n r q) = lo + scale n r q := int32_of_range ⟨by omega, by omega⟩
  rw [toVirtual, if_pos hsize, hwidth, size_pred, hscale, hcast, hsum]
  simp only [clampTo]
  split_ifs <;> omega

/-- What AX=3 gives of a coordinate that AX=4 has set. -/
theorem toVirtual_toHost {r d set : Nat} (hn : 0 < n) (hn' : n ≤ 1279) (hr : 0 < r) (hmax : hi = lo + r)
    (hrange : RangeOk lo hi) (hset : (set : Int) = lo + d) (hd : d ≤ 98303) :
    toVirtual (n + 1) lo hi (toHost (n + 1) lo hi set) = lo + (min r (scale n r (scale r n d)) : Nat) := by
  rw [toHost_eq hr hmax hset hn' hd]
  exact toVirtual_eq hn hmax hrange (scale_back_le.trans hd)

/-- Every position is reported within the range. -/
theorem toVirtual_range (size : Nat) (hrange : RangeOk lo hi) (host : Int) :
    lo ≤ toVirtual size lo hi host ∧ toVirtual size lo hi host ≤ hi := by
  have hlt := hrange.lt
  simp only [toVirtual, clampTo]
  generalize (if 1 < size then int32 (lo + int32 ((host * (hi - lo)).tdiv (size - 1))) else lo) = x
  split_ifs <;> omega

theorem word_eq_iff {x : Int} {set : Nat} (hx : -32768 ≤ x ∧ x ≤ 32767) (hset : set < 65536) :
    word x = set ↔ x = int16 set := by
  simp only [word, int16]
  split_ifs <;> omega

theorem int16_word {x : Int} (hx : -32768 ≤ x ∧ x ≤ 32767) : int16 (word x) = x := by
  simp only [word, int16]
  split_ifs <;> omega

/-- **A coordinate of the range comes back** when the frame has a pixel for it; a negative one comes back as the end of
    the range. -/
theorem comesBack_iff {size set : Nat} (hsize : 2 ≤ size ∧ size ≤ 1280) (hrange : RangeOk lo hi) (hset : set < 65536)
    (hin : lo ≤ int16 set ∧ int16 set ≤ hi) :
    word (toVirtual size lo hi (toHost size lo hi set)) = set ↔ ComesBack size lo hi set := by
  obtain ⟨hlow, hlt, hhigh⟩ := id hrange
  obtain ⟨n, rfl⟩ : ∃ n, size = n + 1 := ⟨size - 1, by omega⟩
  obtain ⟨r, hr⟩ : ∃ r : Nat, hi - lo = r := ⟨(hi - lo).toNat, by omega⟩
  obtain ⟨d, hd⟩ : ∃ d : Nat, (set : Int) - lo = d := ⟨((set : Int) - lo).toNat, by
    simp only [int16] at hin
    split_ifs at hin <;> omega⟩
  have hn : 0 < n := by omega
  have hboth : toVirtual (n + 1) lo hi (toHost (n + 1) lo hi set) = lo + (min r (scale n r (scale r n d)) : Nat) :=
    toVirtual_toHost hn (by omega) (by omega) (by omega) hrange (by omega) (by omega)
  have hrangeOk := toVirtual_range (n + 1) hrange (toHost (n + 1) lo hi set)
  rw [word_eq_iff ⟨by omega, by omega⟩ hset, hboth, ComesBack]
  by_cases hneg : set < 32768
  · have hpos : int16 set = lo + d := by
      rw [int16, if_pos hneg]
      omega
    have hback : scale n r (scale r n d) ≤ d := scale_back_le
    have hdiv : (hi - lo ∣ (int16 set - lo) * (((n + 1 : Nat) : Int) - 1)) ↔ r ∣ d * n := by
      have hoff : int16 set - lo = d := by omega
      rw [hr, hoff, size_pred, ← Int.natCast_mul]
      exact Int.natCast_dvd_natCast
    rw [if_pos hneg, hdiv, ← scale_back_eq_iff hn, hpos]
    omega
  · -- taken for a number beyond the range
    have hbeyond : r ≤ scale n r (scale r n d) := le_scale_back hn (by omega) (by omega)
    rw [if_neg hneg]
    omega

end Coordinate

/-! ### The calls -/

section Calls

variable {windowed : Bool} {v : Video} {s : MouseState} {m : Machine}

/-- Every frame has more than one pixel each way. -/
theorem frameDims_range (h : VideoOk v) : (2 ≤ (frameDims v).1 ∧ (frameDims v).1 ≤ 1280) ∧
    2 ≤ (frameDims v).2 ∧ (frameDims v).2 ≤ 1280 := by
  have hx := h.xres
  have hy := h.yres
  by_cases hactive : v.active = true
  · obtain ⟨hw, hh, -, -⟩ := h.shown hactive
    rw [frameDims, if_pos hactive]
    exact ⟨⟨by dsimp only; omega, hx⟩, by dsimp only; omega, by dsimp only; omega⟩
  · rw [frameDims, if_neg hactive]
    by_cases htext : v.mode ≠ 0x13
    · rw [if_pos htext]
      decide
    · rw [if_neg htext]
      decide

theorem word_lt (x : Int) : word x < 65536 := by
  rw [word]
  omega

/-- AX=3 gives the position of the last event. -/
theorem int33_03 (windowed : Bool) (v : Video) (s : MouseState) (h : m.ax = 0x0003) :
    (int33 windowed v s m).2.cx = word (toVirtual (frameDims v).1 s.minX s.maxX s.hostX) ∧
      (int33 windowed v s m).2.dx = word (toVirtual (frameDims v).2 s.minY s.maxY s.hostY) := by
  have hcall : (int33 windowed v s m).2 =
      m.setR16s [(.ebx, s.hostButtons), (.ecx, word (toVirtual (frameDims v).1 s.minX s.maxX s.hostX)),
        (.edx, word (toVirtual (frameDims v).2 s.minY s.maxY s.hostY))] := by
    rw [int33, h]
    rfl
  have hcx := word_lt (toVirtual (frameDims v).1 s.minX s.maxX s.hostX)
  have hdx := word_lt (toVirtual (frameDims v).2 s.minY s.maxY s.hostY)
  rw [hcall]
  simp only [cx, dx, setR16s, List.foldl_cons, List.foldl_nil]
  rw [r16_setR16_of_ne _ _ (by decide), r16_setR16, r16_setR16]
  exact ⟨Nat.mod_eq_of_lt hcx, Nat.mod_eq_of_lt hdx⟩

/-- AX=4 sets the pixels and keeps the range. -/
theorem int33_04 (windowed : Bool) (v : Video) (s : MouseState) (h : m.ax = 0x0004) :
    (int33 windowed v s m).1 = { poll v s with
      hostX := toHost (frameDims v).1 s.minX s.maxX m.cx
      hostY := toHost (frameDims v).2 s.minY s.maxY m.dx } := by
  rw [int33, h]
  rfl

theorem int16_range (w : Nat) (h : w < 65536) : -32768 ≤ int16 w ∧ int16 w ≤ 32767 := by
  simp only [int16]
  split_ifs <;> omega

/-- AX=7 and AX=8 set a range of 16-bit coordinates. -/
theorem int33_range (windowed : Bool) (v : Video) (s : MouseState) (hlt : int16 m.cx < int16 m.dx) :
    (m.ax = 0x0007 → RangeOk (int33 windowed v s m).1.minX (int33 windowed v s m).1.maxX) ∧
      (m.ax = 0x0008 → RangeOk (int33 windowed v s m).1.minY (int33 windowed v s m).1.maxY) := by
  have hrange : RangeOk (int16 m.cx) (int16 m.dx) :=
    ⟨(int16_range m.cx (m.r16_lt .ecx)).1, hlt, (int16_range m.dx (m.r16_lt .edx)).2⟩
  constructor <;>
  · intro h
    rw [int33, h]
    exact hrange

end Calls

/-! ### Setting a position and asking for it -/

/-- **What AX=4 sets comes back where the frame has a pixel for it.**  In every video mode and with every range, AX=3
    after AX=4 gives the same position exactly when both coordinates come back; and it gives a position in the range
    wherever the host's pointer is. -/
theorem mousePosition_iff {es : List VideoEvent} {v : Video} (hrun : Run videoStep bootVideo es v) (windowed : Bool)
    (s : MouseState) (hx : RangeOk s.minX s.maxX) (hy : RangeOk s.minY s.maxY) (m₄ m₃ : Machine) (h₄ : m₄.ax = 0x0004)
    (h₃ : m₃.ax = 0x0003) (hcx : s.minX ≤ int16 m₄.cx ∧ int16 m₄.cx ≤ s.maxX)
    (hdx : s.minY ≤ int16 m₄.dx ∧ int16 m₄.dx ≤ s.maxY) :
    ((int33 windowed v (int33 windowed v s m₄).1 m₃).2.cx = m₄.cx ∧
        (int33 windowed v (int33 windowed v s m₄).1 m₃).2.dx = m₄.dx ↔
      ComesBack (frameDims v).1 s.minX s.maxX m₄.cx ∧ ComesBack (frameDims v).2 s.minY s.maxY m₄.dx) ∧
    ∀ hostX hostY,
      let m' := (int33 windowed v { s with hostX := hostX, hostY := hostY } m₃).2
      (s.minX ≤ int16 m'.cx ∧ int16 m'.cx ≤ s.maxX) ∧ s.minY ≤ int16 m'.dx ∧ int16 m'.dx ≤ s.maxY := by
  have hok : VideoOk v := hrun.invariant (fun _ _ _ h hstep => videoStep_ok h hstep) bootVideo_ok
  obtain ⟨hw, hh⟩ := frameDims_range hok
  constructor
  · obtain ⟨hcol, hrow⟩ := int33_03 windowed v (int33 windowed v s m₄).1 h₃
    rw [hcol, hrow, int33_04 windowed v s h₄]
    exact and_congr (comesBack_iff hw hx (m₄.r16_lt .ecx) hcx) (comesBack_iff hh hy (m₄.r16_lt .edx) hdx)
  · intro hostX hostY
    obtain ⟨hcol, hrow⟩ := int33_03 windowed v { s with hostX := hostX, hostY := hostY } h₃
    have hinX := toVirtual_range (frameDims v).1 hx hostX
    have hinY := toVirtual_range (frameDims v).2 hy hostY
    have hlowX := hx.low
    have hhighX := hx.high
    have hlowY := hy.low
    have hhighY := hy.high
    dsimp only
    rw [hcol, hrow]
    dsimp only
    rw [int16_word ⟨by omega, by omega⟩, int16_word ⟨by omega, by omega⟩]
    exact ⟨hinX, hinY⟩

/-- The registers of a call. -/
def mouseRegs (ax cx dx : BitVec 32) : Machine :=
  bootMachine.setRegs fun
    | .eax => ax
    | .ecx => cx
    | .edx => dx
    | _ => 0

/-- In text mode, with the range that the driver starts with: the last row comes back. -/
theorem mousePosition_last_row :
    (int33 true bootVideo (int33 true bootVideo bootMouse (mouseRegs 4 320 199)).1 (mouseRegs 3 0 0)).2.dx = 199 := by
  have hback := (mousePosition_iff (.nil bootVideo) true bootMouse ⟨by decide, by decide, by decide⟩
    ⟨by decide, by decide, by decide⟩ (mouseRegs 4 320 199) (mouseRegs 3 0 0) (by decide +kernel) (by decide +kernel)
    (by decide +kernel) (by decide +kernel)).1
  exact (hback.mpr ⟨by decide +kernel, by decide +kernel⟩).2

/-- Row 100 comes back as row 99. -/
theorem mousePosition_row_100 : ¬ ∀ (es : List VideoEvent) (v : Video), Run videoStep bootVideo es v →
    ∀ (windowed : Bool) (s : MouseState), RangeOk s.minX s.maxX → RangeOk s.minY s.maxY →
      ∀ m₄ m₃ : Machine, m₄.ax = 0x0004 → m₃.ax = 0x0003 → (s.minX ≤ int16 m₄.cx ∧ int16 m₄.cx ≤ s.maxX) →
        (s.minY ≤ int16 m₄.dx ∧ int16 m₄.dx ≤ s.maxY) →
          (int33 windowed v (int33 windowed v s m₄).1 m₃).2.cx = m₄.cx ∧
            (int33 windowed v (int33 windowed v s m₄).1 m₃).2.dx = m₄.dx := by
  intro h
  have hback := (h [] bootVideo (.nil bootVideo) true bootMouse ⟨by decide, by decide, by decide⟩
    ⟨by decide, by decide, by decide⟩ (mouseRegs 4 320 100) (mouseRegs 3 0 0) (by decide +kernel) (by decide +kernel)
    (by decide +kernel) (by decide +kernel)).2
  exact absurd hback (by decide +kernel)

end Dosiz.MousePosition
