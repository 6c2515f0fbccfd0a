/-
  Dosiz/VesaModes.lean
  ====================
  **The VESA modes** (`dosiz_int10_vesa` of `bridge.cc`, the VESA state and `render_vesa` of `video.cc`).

  The guest chooses the length of a scan line and the start of the picture, and the code multiplies and adds them in
  32 bits.  A stride is taken only if the whole picture then fits into the memory, so it is short, and nothing that is
  computed from it is too long (`vesa_inBounds`).  In the model a product or sum that does not fit has no result.
-/
import Dosiz.Machine
import Dosiz.Transition

namespace Dosiz.VesaModes

open Machine Transition

/-! ### The video state -/

structure VesaMode where
  num : Nat
  w : Nat
  h : Nat
  bpp : Nat

def kVesaModes : List VesaMode :=
  [⟨0x100, 640, 400, 8⟩, ⟨0x101, 640, 480, 8⟩, ⟨0x103, 800, 600, 8⟩, ⟨0x105, 1024, 768, 8⟩, ⟨0x107, 1280, 1024, 8⟩,
    ⟨0x10D, 320, 200, 15⟩, ⟨0x110, 640, 480, 15⟩, ⟨0x113, 800, 600, 15⟩, ⟨0x116, 1024, 768, 15⟩,
    ⟨0x119, 1280, 1024, 15⟩, ⟨0x10E, 320, 200, 16⟩, ⟨0x111, 640, 480, 16⟩, ⟨0x114, 800, 600, 16⟩,
    ⟨0x117, 1024, 768, 16⟩, ⟨0x11A, 1280, 1024, 16⟩, ⟨0x10F, 320, 200, 24⟩, ⟨0x112, 640, 480, 24⟩,
    ⟨0x115, 800, 600, 24⟩, ⟨0x118, 1024, 768, 24⟩, ⟨0x11B, 1280, 1024, 24⟩, ⟨0x140, 320, 200, 32⟩,
    ⟨0x141, 640, 480, 32⟩, ⟨0x142, 800, 600, 32⟩, ⟨0x143, 1024, 768, 32⟩, ⟨0x144, 1280, 1024, 32⟩]

/-- `SVGA_VRAM_TOTAL` -/
def vramTotal : Nat := 8 * 1024 * 1024

/-- The mode of INT 10h, the VESA state, and of the SVGA memory its size and the bank window. -/
structure Video where
  mode : Nat
  active : Bool
  vesaMode : Nat
  xres : Nat
  yres : Nat
  bpp : Nat
  stride : Nat
  displayStart : Nat
  vram : Nat
  windowOff : Nat

def bootVideo : Video := ⟨0x03, false, 0, 0, 0, 0, 0, 0, 0, 0⟩

def frameDims (v : Video) : Nat × Nat :=
  if v.active then (v.xres, v.yres) else if v.mode ≠ 0x13 then (640, 400) else (320, 200)

def bppBytes (bpp : Nat) : Nat := if bpp ≤ 8 then 1 else if bpp ≤ 16 then 2 else if bpp ≤ 24 then 3 else 4

def vesaFind (num : Nat) : Option VesaMode := kVesaModes.find? fun m => m.num = num % 0x4000

/-- A 32-bit product or sum. -/
def fit32 (x : Nat) : Option Nat := if x < 4294967296 then some x else none

/-- `set_mode`: a legacy mode. -/
def setMode (v : Video) (mode : Nat) : Video := { v with mode := mode, active := false }

/-! ### The calls -/

def answer (v : Video) (m : Machine) (ax : Nat) : Option (Video × Machine) := some (v, m.setR16 .eax ax)

/-- 4F02; the memory has the size that `svga_ensure` was asked for. -/
def vesa4F02 (v : Video) (m : Machine) : Option (Video × Machine) :=
  match vesaFind m.bx with
  | none => answer v m 0x014F
  | some mode => do
    let stride ← fit32 (mode.w * bppBytes mode.bpp)
    answer { v with
      active := true, vesaMode := mode.num, xres := mode.w, yres := mode.h, bpp := mode.bpp, stride := stride,
      displayStart := 0, vram := vramTotal, windowOff := 0 } m 0x004F

def vesa4F05 (v : Video) (m : Machine) : Option (Video × Machine) :=
  if m.bl ≠ 0 then answer v m 0x014F
  else if m.r8h .ebx = 0 then do
    let off ← fit32 (m.dx * 65536)
    answer { v with windowOff := off } m 0x004F
  else if m.r8h .ebx = 1 then answer v (m.setR16 .edx (v.windowOff / 65536)) 0x004F
  else answer v m 0x014F

/-- The depth that the calls reckon with. -/
def Video.bypp (v : Video) : Nat := bppBytes (if v.bpp = 0 then 8 else v.bpp)

/-- The stride that the calls reckon with. -/
def Video.line (v : Video) : Nat := if v.stride = 0 then 1 else v.stride

/-- The length that 4F06 is asked for, in pixels or in bytes. -/
def askedStride (v : Video) (m : Machine) : Option Nat :=
  if m.bl = 0 then fit32 (m.cx * v.bypp) else some m.cx

/-- The part of 4F06 that sets the stride. -/
def setScanline (v : Video) (m : Machine) : Option Video :=
  if v.active ∧ (m.bl = 0 ∨ m.bl = 2) then do
    let asked ← askedStride v m
    let minb ← fit32 (v.xres * v.bypp)
    let want := if asked < minb then minb else asked
    if 0 < v.yres then
      let size ← fit32 (want * v.yres)
      some (if size ≤ vramTotal then { v with stride := want } else v)
    else some v
  else some v

def vesa4F06 (v : Video) (m : Machine) : Option (Video × Machine) := do
  let v' ← setScanline v m
  answer v' (m.setR16s [(.ebx, v'.line), (.ecx, v'.line / v.bypp), (.edx, vramTotal / v'.line)]) 0x004F

def vesa4F07 (v : Video) (m : Machine) : Option (Video × Machine) :=
  if m.bl = 0x00 ∨ m.bl = 0x80 then do
    let rows ← fit32 (m.dx * v.line)
    let cols ← fit32 (m.cx * v.bypp)
    let start ← fit32 (rows + cols)
    answer { v with displayStart := start } m 0x004F
  else if m.bl = 0x01 then
    answer v (m.setR16s [(.edx, v.displayStart / v.line), (.ecx, v.displayStart % v.line / v.bypp)]) 0x004F
  else answer v m 0x014F

/-- The calls of INT 10h AH=4F that set the mode, the bank, the stride and the start. -/
inductive VbeCall where
  | mode | bank | scanline | start

def VbeCall.serve : VbeCall → Video → Machine → Option (Video × Machine)
  | .mode => vesa4F02
  | .bank => vesa4F05
  | .scanline => vesa4F06
  | .start => vesa4F07

/-! ### Rendering -/

/-- A pixel that is put out: where, its colour, and the bytes of the SVGA memory that were read for it. -/
structure Plot where
  index : Nat
  argb : Nat
  reads : List Nat

/-- A channel of six bits as one of eight. -/
def channel6 (c : Nat) : Nat := (c <<< 2 ||| c >>> 4) % 256

def argb (r g b : Nat) : Nat := 0xFF000000 ||| r <<< 16 ||| g <<< 8 ||| b

/-- A channel of five bits as one of eight. -/
def channel5 (c : Nat) : Nat := c <<< 3 ||| c >>> 2

/-- The colour at offset `o`, and the bytes it is made of. -/
def colour (bpp : Nat) (dac : Nat → Nat × Nat × Nat) (fb : Nat → UInt8) (o : Nat) : Nat × List Nat :=
  let px := fun i => (fb (o + i)).toNat
  if bpp = 8 then
    let c := dac (px 0)
    (argb (channel6 c.1) (channel6 c.2.1) (channel6 c.2.2), [o])
  else if bpp = 15 then
    let v := px 0 + 256 * px 1
    (argb (channel5 (v >>> 10 % 32)) (channel5 (v >>> 5 % 32)) (channel5 (v % 32)), [o, o + 1])
  else if bpp = 16 then
    let v := px 0 + 256 * px 1
    let g := v >>> 5 % 64
    (argb (channel5 (v >>> 11 % 32)) (g <<< 2 ||| g >>> 4) (channel5 (v % 32)), [o, o + 1])
  else (argb (px 2) (px 1) (px 0), [o, o + 1, o + 2])

/-- The pixel in column `x` of row `y`. -/
def renderPixel (v : Video) (dac : Nat → Nat × Nat × Nat) (fb : Nat → UInt8) (w x y : Nat) : Option Plot := do
  let rows ← fit32 (y * v.stride)
  let base ← fit32 (v.displayStart + rows)
  let cols ← fit32 (x * bppBytes v.bpp)
  let o ← fit32 (base + cols)
  let last ← fit32 (o + bppBytes v.bpp)
  let c := if v.vram < last then (0xFF000000, []) else colour v.bpp dac fb o
  some ⟨y * w + x, c.1, c.2⟩

/-- `render_vesa` on the palette and the SVGA memory. -/
def renderVesa (v : Video) (dac : Nat → Nat × Nat × Nat) (fb : Nat → UInt8) : List (Option Plot) :=
  let dims := frameDims v
  (List.range dims.2).flatMap fun y => (List.range dims.1).map fun x => renderPixel v dac fb dims.1 x y

/-! ### Runs -/

inductive VideoEvent where
  | vbe (call : VbeCall) (m : Machine)
  | setMode (mode : Nat)

def videoStep (v : Video) : VideoEvent → Video → Prop
  | .vbe call m, v' => ∃ m', call.serve v m = some (v', m')
  | .setMode mode, v' => v' = setMode v mode

/-- The depths of the modes. -/
def depths : List Nat := [8, 15, 16, 24, 32]

/-- The picture fits into the memory, and the calls have kept the start of it in reach. -/
structure VideoOk (v : Video) : Prop where
  width : v.xres * bppBytes v.bpp ≤ v.stride
  size : v.stride * v.yres ≤ vramTotal
  stride : v.stride ≤ 41943
  start : v.displayStart ≤ 65535 * 41943 + 65535 * 4
  xres : v.xres ≤ 1280
  yres : v.yres ≤ 1024
  shown : v.active = true → 320 ≤ v.xres ∧ 200 ≤ v.yres ∧ v.bpp ∈ depths ∧ v.vram = vramTotal

theorem bootVideo_ok : VideoOk bootVideo where
  width := by decide
  size := by decide
  stride := by decide
  start := by decide
  xres := by decide
  yres := by decide
  shown := fun h => by cases h

/-! ### One call -/

section Calls

variable {v v' : Video} {m m' : Machine}

theorem fit32_of_lt {x : Nat} (h : x < 4294967296) : fit32 x = some x := if_pos h

theorem bppBytes_range (bpp : Nat) : 1 ≤ bppBytes bpp ∧ bppBytes bpp ≤ 4 := by
  simp only [bppBytes]
  split_ifs <;> decide

/-- The modes of the table. -/
theorem kVesaModes_fit : ∀ m ∈ kVesaModes, (320 ≤ m.w ∧ m.w ≤ 1280) ∧ (200 ≤ m.h ∧ m.h ≤ 1024) ∧ m.bpp ∈ depths ∧
    m.w * bppBytes m.bpp ≤ 41943 ∧ m.w * bppBytes m.bpp * m.h ≤ vramTotal := by
  decide

theorem VideoOk.line_le (h : VideoOk v) : v.line ≤ 41943 := by
  have hstride := h.stride
  simp only [Video.line]
  split_ifs <;> omega

/-- A number of lines or of pixels that a register holds. -/
theorem word_mul_le {a b bound : Nat} (ha : a < 65536) (hb : b ≤ bound) : a * b ≤ 65535 * bound :=
  Nat.mul_le_mul (Nat.le_of_lt_succ ha) hb

theorem vesa4F02_ok (h : VideoOk v) (m : Machine) : ∃ v' m', vesa4F02 v m = some (v', m') ∧ VideoOk v' := by
  rw [vesa4F02]
  cases hfind : vesaFind m.bx with
  | none => exact ⟨v, _, rfl, h⟩
  | some mode =>
    obtain ⟨⟨hw, hw'⟩, ⟨hh, hh'⟩, hbpp, hstride, hsize⟩ := kVesaModes_fit mode (List.mem_of_find?_eq_some hfind)
    dsimp only
    rw [fit32_of_lt (by omega)]
    exact ⟨_, _, rfl, le_rfl, hsize, hstride, Nat.zero_le _, hw', hh', fun _ => ⟨hw, hh, hbpp, rfl⟩⟩

theorem vesa4F05_ok (h : VideoOk v) (m : Machine) : ∃ v' m', vesa4F05 v m = some (v', m') ∧ VideoOk v' := by
  have hdx : m.dx < 65536 := m.r16_lt .edx
  have hok : ∀ off, VideoOk { v with windowOff := off } := fun off =>
    ⟨h.width, h.size, h.stride, h.start, h.xres, h.yres, h.shown⟩
  rw [vesa4F05]
  by_cases hbl : m.bl ≠ 0
  · rw [if_pos hbl]
    exact ⟨v, _, rfl, h⟩
  · rw [if_neg hbl, fit32_of_lt (by omega)]
    by_cases hset : m.r8h .ebx = 0
    · rw [if_pos hset]
      exact ⟨_, _, rfl, hok _⟩
    · rw [if_neg hset]
      by_cases hget : m.r8h .ebx = 1
      · rw [if_pos hget]
        exact ⟨v, _, rfl, h⟩
      · rw [if_neg hget]
        exact ⟨v, _, rfl, h⟩

/-- While a mode is active the calls reckon with its depth. -/
theorem VideoOk.bypp_eq (h : VideoOk v) (hactive : v.active = true) : v.bypp = bppBytes v.bpp := by
  have hzero : v.bpp ≠ 0 := fun hzero => by
    have hdepth := (h.shown hactive).2.2.1
    rw [hzero] at hdepth
    exact absurd hdepth (by decide)
  rw [Video.bypp, if_neg hzero]

theorem askedStride_le (v : Video) (m : Machine) : ∃ asked, askedStride v m = some asked ∧ asked ≤ 262140 := by
  have hcx : m.cx < 65536 := m.r16_lt .ecx
  have hcols : m.cx * v.bypp ≤ 65535 * 4 := word_mul_le hcx (bppBytes_range _).2
  by_cases hbl : m.bl = 0
  · rw [askedStride, if_pos hbl, fit32_of_lt (by omega)]
    exact ⟨_, rfl, hcols⟩
  · rw [askedStride, if_neg hbl]
    exact ⟨_, rfl, by omega⟩

theorem setScanline_ok (h : VideoOk v) (m : Machine) : ∃ v', setScanline v m = some v' ∧ VideoOk v' := by
  by_cases hset : v.active ∧ (m.bl = 0 ∨ m.bl = 2)
  · obtain ⟨-, hh, -, -⟩ := h.shown hset.1
    have hwidth := h.width
    have hstride := h.stride
    have hheight := h.yres
    obtain ⟨asked, hasked, hle⟩ := askedStride_le v m
    generalize hwant : (if asked < v.xres * bppBytes v.bpp then v.xres * bppBytes v.bpp else asked) = want
    have hmin : v.xres * bppBytes v.bpp ≤ want ∧ want ≤ 262140 := by
      rw [← hwant]
      split_ifs <;> omega
    have hfits : want * v.yres ≤ 262140 * 1024 := Nat.mul_le_mul hmin.2 hheight
    rw [setScanline, if_pos hset, hasked, h.bypp_eq hset.1, fit32_of_lt (by omega)]
    simp only [Option.bind_eq_bind, Option.bind_some, hwant]
    rw [if_pos (by omega), fit32_of_lt (by omega)]
    refine ⟨_, rfl, ?_⟩
    by_cases htaken : want * v.yres ≤ vramTotal
    · -- a picture of 200 rows at least
      have hshort : want * 200 ≤ want * v.yres := Nat.mul_le_mul_left want hh
      have htotal : vramTotal = 8388608 := rfl
      rw [if_pos htaken]
      exact ⟨hmin.1, htaken, by dsimp only; omega, h.start, h.xres, hheight, h.shown⟩
    · rw [if_neg htaken]
      exact h
  · rw [setScanline, if_neg hset]
    exact ⟨v, rfl, h⟩

theorem vesa4F06_ok (h : VideoOk v) (m : Machine) :
    ∃ v' m', vesa4F06 v m = some (v', m') ∧ VideoOk v' ∧ m'.bx = v'.line := by
  obtain ⟨v', hset, hok⟩ := setScanline_ok h m
  have hline := hok.line_le
  rw [vesa4F06, hset]
  refine ⟨v', _, rfl, hok, ?_⟩
  simp only [bx, setR16s, List.foldl_cons, List.foldl_nil]
  rw [r16_setR16_of_ne _ _ (by decide), r16_setR16_of_ne _ _ (by decide), r16_setR16_of_ne _ _ (by decide), r16_setR16]
  exact Nat.mod_eq_of_lt (by omega)

theorem vesa4F07_ok (h : VideoOk v) (m : Machine) : ∃ v' m', vesa4F07 v m = some (v', m') ∧ VideoOk v' := by
  have hline := h.line_le
  have hrows := word_mul_le (m.r16_lt .edx) hline
  have hcols := word_mul_le (m.r16_lt .ecx) (bppBytes_range (if v.bpp = 0 then 8 else v.bpp)).2
  rw [vesa4F07]
  by_cases hset : m.bl = 0x00 ∨ m.bl = 0x80
  · have hbound : m.dx * v.line + m.cx * v.bypp ≤ 65535 * 41943 + 65535 * 4 := Nat.add_le_add hrows hcols
    rw [if_pos hset, fit32_of_lt (by omega), fit32_of_lt (by omega)]
    simp only [Option.bind_eq_bind, Option.bind_some]
    rw [fit32_of_lt (by omega)]
    exact ⟨_, _, rfl, h.width, h.size, h.stride, hbound, h.xres, h.yres, h.shown⟩
  · rw [if_neg hset]
    by_cases hget : m.bl = 0x01
    · rw [if_pos hget]
      exact ⟨v, _, rfl, h⟩
    · rw [if_neg hget]
      exact ⟨v, _, rfl, h⟩

/-- Every call has its sums and products in 32 bits, and keeps the picture in the memory. -/
theorem VbeCall.serve_ok (call : VbeCall) (h : VideoOk v) (m : Machine) :
    ∃ v' m', call.serve v m = some (v', m') ∧ VideoOk v' := by
  cases call with
  | mode => exact vesa4F02_ok h m
  | bank => exact vesa4F05_ok h m
  | scanline =>
    obtain ⟨v', m', hcall, hok, -⟩ := vesa4F06_ok h m
    exact ⟨v', m', hcall, hok⟩
  | start => exact vesa4F07_ok h m

theorem videoStep_ok {e : VideoEvent} (h : VideoOk v) (hstep : videoStep v e v') : VideoOk v' := by
  cases e with
  | vbe call m =>
    obtain ⟨m', hcall⟩ := hstep
    obtain ⟨v₁, m₁, hserved, hok⟩ := call.serve_ok h m
    rw [hcall] at hserved
    cases hserved
    exact hok
  | setMode mode =>
    cases hstep
    exact ⟨h.width, h.size, h.stride, h.start, h.xres, h.yres, fun hactive => by cases hactive⟩

theorem VideoOk.line_eq (h : VideoOk v) (hactive : v.active = true) : v.line = v.stride := by
  obtain ⟨hw, -, -, -⟩ := h.shown hactive
  have hbytes := bppBytes_range v.bpp
  have hwidth := h.width
  have hpos : 1 * 1 ≤ v.xres * bppBytes v.bpp := Nat.mul_le_mul (by omega) hbytes.1
  exact if_neg (by omega)

end Calls

/-! ### Rendering -/

section Render

variable {v : Video} (dac : Nat → Nat × Nat × Nat) (fb : Nat → UInt8)

theorem colour_reads {bpp : Nat} (hbpp : bpp ∈ depths) (o : Nat) :
    ∀ a ∈ (colour bpp dac fb o).2, a < o + bppBytes bpp := by
  simp only [depths, List.mem_cons, List.not_mem_nil, or_false] at hbpp
  rcases hbpp with rfl | rfl | rfl | rfl | rfl <;> simp [colour, bppBytes]

/-- A pixel of the picture is put in its place, and the bytes read for it are in the memory. -/
theorem renderPixel_ok (h : VideoOk v) (hactive : v.active = true) {x y : Nat} (hx : x < v.xres) (hy : y < v.yres) :
    ∃ plot, renderPixel v dac fb v.xres x y = some plot ∧ plot.index < v.xres * v.yres ∧
      ∀ a ∈ plot.reads, a < v.vram := by
  have hbytes := bppBytes_range v.bpp
  have hstart := h.start
  have hxres := h.xres
  have hrows : y * v.stride ≤ 8388608 := by
    have hsize : v.stride * v.yres ≤ 8388608 := h.size
    have hmul : v.stride * y ≤ v.stride * v.yres := Nat.mul_le_mul_left _ (Nat.le_of_lt hy)
    rw [Nat.mul_comm]
    omega
  have hcols : x * bppBytes v.bpp ≤ 1280 * 4 := Nat.mul_le_mul (by omega) hbytes.2
  have hindex : y * v.xres + x < v.xres * v.yres := by
    have hmul : v.xres * (y + 1) ≤ v.xres * v.yres := Nat.mul_le_mul_left _ hy
    rw [Nat.mul_add, Nat.mul_one, Nat.mul_comm] at hmul
    omega
  rw [renderPixel, fit32_of_lt (by omega)]
  simp only [Option.bind_eq_bind, Option.bind_some]
  rw [fit32_of_lt (by omega), fit32_of_lt (by omega)]
  simp only [Option.bind_some]
  rw [fit32_of_lt (by omega)]
  simp only [Option.bind_some]
  rw [fit32_of_lt (by omega)]
  refine ⟨_, rfl, hindex, fun a ha => ?_⟩
  generalize v.displayStart + y * v.stride + x * bppBytes v.bpp = o at ha
  dsimp only at ha
  by_cases hout : v.vram < o + bppBytes v.bpp
  · rw [if_pos hout] at ha
    cases ha
  · rw [if_neg hout] at ha
    exact Nat.lt_of_lt_of_le (colour_reads dac fb (h.shown hactive).2.2.1 o a ha) (Nat.not_lt.mp hout)

end Render

/-! ### Every state reached -/

/-- **The VESA calls stay in bounds.**  In every state reached: while a mode is active, a line holds its pixels and the
    picture fits into the memory; no call has a product or sum beyond 32 bits; 4F06 gives the whole stride; and
    rendering has none either, reads the memory only and puts out the pixels of the picture only. -/
theorem vesa_inBounds {es : List VideoEvent} {v : Video} (hrun : Run videoStep bootVideo es v) :
    (v.active = true → v.xres * bppBytes v.bpp ≤ v.stride ∧ v.stride * v.yres ≤ vramTotal) ∧
    (∀ call m, ∃ v' m', VbeCall.serve call v m = some (v', m')) ∧
    (∀ m, ∃ v' m', vesa4F06 v m = some (v', m') ∧ (v'.active = true → m'.bx = v'.stride)) ∧
    (v.active = true → ∀ dac fb, ∀ p ∈ renderVesa v dac fb,
      ∃ plot, p = some plot ∧ plot.index < v.xres * v.yres ∧ ∀ a ∈ plot.reads, a < v.vram) := by
  have hok : VideoOk v := hrun.invariant (fun _ _ _ h hstep => videoStep_ok h hstep) bootVideo_ok
  refine ⟨fun _ => ⟨hok.width, hok.size⟩, fun call m => ?_, fun m => ?_, fun hactive dac fb p hp => ?_⟩
  · obtain ⟨v', m', hcall, -⟩ := call.serve_ok hok m
    exact ⟨v', m', hcall⟩
  · obtain ⟨v', m', hcall, hok', hbx⟩ := vesa4F06_ok hok m
    exact ⟨v', m', hcall, fun hactive => hbx.trans (hok'.line_eq hactive)⟩
  · rw [renderVesa, frameDims, if_pos hactive, List.mem_flatMap] at hp
    obtain ⟨y, hy, hp⟩ := hp
    obtain ⟨x, hx, rfl⟩ := List.mem_map.mp hp
    obtain ⟨plot, hplot, hbounds⟩ := renderPixel_ok dac fb hok hactive (List.mem_range.mp hx) (List.mem_range.mp hy)
    exact ⟨plot, hplot, hbounds⟩

/-- Mode 101h. -/
def mode101 : Video := ⟨0x03, true, 0x101, 640, 480, 8, 640, 0, vramTotal, 0⟩

theorem vesa_inBounds_101 : mode101.xres * bppBytes mode101.bpp ≤ mode101.stride ∧
    mode101.stride * mode101.yres ≤ vramTotal := by
  have hstep : videoStep bootVideo (.vbe .mode (bootMachine.setR16 .ebx 0x101)) mode101 := ⟨_, rfl⟩
  exact (vesa_inBounds (.single hstep)).1 rfl

end Dosiz.VesaModes
