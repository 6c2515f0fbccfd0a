/-
  Dosiz/Palette.lean
  ==================
  **The palette** (`port_out`, `port_in`, `set_dac` and `init_default_palette` of `video.cc`; INT 10h AH=10 and
  AX=4F09 of `bridge.cc`).

  A program sets the palette through the ports 3C6h to 3C9h, one channel at a time behind an index that goes round, or
  with calls that take a block of entries.  What it has read from any index it can write back later
  (`palette_restored`), and a call is the same as the ports as long as its block ends within the
  palette (`int10_block_iff`).
-/
import Mathlib.Data.List.Induction
import Dosiz.Machine
import Dosiz.Transition

namespace Dosiz.Palette

open ByteMemory Machine Transition

/-! ### The ports -/

/-- `dac`: the three channels of 256 entries, and what the ports keep. -/
structure Dac where
  dac : BitVec 8 → Nat → BitVec 8
  widx : BitVec 8
  comp : Nat
  ridx : BitVec 8
  rcomp : Nat
  pelMask : BitVec 8

/-- A channel is set; it has six bits. -/
def setChannel (dac : BitVec 8 → Nat → BitVec 8) (j : BitVec 8) (c : Nat) (val : BitVec 8) : BitVec 8 → Nat → BitVec 8 :=
  fun j' c' => if j' = j ∧ c' = c then val &&& 0x3F else dac j' c'

def portOut (d : Dac) (port : Nat) (val : BitVec 8) : Dac :=
  match port with
  | 0x3C6 => { d with pelMask := val }
  | 0x3C7 => { d with ridx := val, rcomp := 0 }
  | 0x3C8 => { d with widx := val, comp := 0 }
  | 0x3C9 =>
    let d' := { d with dac := setChannel d.dac d.widx d.comp val }
    if 3 ≤ d.comp + 1 then { d' with comp := 0, widx := d.widx + 1 } else { d' with comp := d.comp + 1 }
  | _ => d

def portIn (d : Dac) (port : Nat) : BitVec 8 × Dac :=
  match port with
  | 0x3C6 => (d.pelMask, d)
  | 0x3C8 => (d.widx, d)
  | 0x3C9 =>
    (d.dac d.ridx d.rcomp,
      if 3 ≤ d.rcomp + 1 then { d with rcomp := 0, ridx := d.ridx + 1 } else { d with rcomp := d.rcomp + 1 })
  | _ => (0xFF, d)

/-! ### The calls -/

/-- The three channels of an entry. -/
def setEntry (dac : BitVec 8 → Nat → BitVec 8) (j : BitVec 8) (rgb : BitVec 8 × BitVec 8 × BitVec 8) :
    BitVec 8 → Nat → BitVec 8 :=
  setChannel (setChannel (setChannel dac j 0 rgb.1) j 1 rgb.2.1) j 2 rgb.2.2

def setDac (d : Dac) (index : Nat) (rgb : BitVec 8 × BitVec 8 × BitVec 8) : Dac :=
  if 255 < index then d else { d with dac := setEntry d.dac (BitVec.ofNat 8 index) rgb }

/-- The loop of a call over a block of entries, with the red, green and blue of each. -/
def setBlock (d : Dac) (index n : Nat) (entry : Nat → BitVec 8 × BitVec 8 × BitVec 8) : Dac :=
  (List.range n).foldl (fun d i => setDac d (index + i) (entry i)) d

def byteAt (mem : Mem) (a : Nat) : BitVec 8 := (mem (lin a)).toBitVec

def rgbEntry (mem : Mem) (t i : Nat) : BitVec 8 × BitVec 8 × BitVec 8 :=
  (byteAt mem (t + i * 3), byteAt mem (t + i * 3 + 1), byteAt mem (t + i * 3 + 2))

def bgrEntry (mem : Mem) (p i : Nat) : BitVec 8 × BitVec 8 × BitVec 8 :=
  (byteAt mem (p + i * 4 + 2), byteAt mem (p + i * 4 + 1), byteAt mem (p + i * 4))

/-- `dosiz_int10` AH=10 -/
def int10_10 (m : Machine) (d : Dac) : Dac :=
  match m.r8l .eax with
  | 0x10 => setDac d m.bx (BitVec.ofNat 8 (m.r8h .edx), BitVec.ofNat 8 (m.r8h .ecx), BitVec.ofNat 8 (m.r8l .ecx))
  | 0x12 => setBlock d m.bx m.cx (rgbEntry m.mem (m.segPhys .es + m.dx))
  | _ => d

/-- The buffer of a VESA call. -/
def vesaBuffer (m : Machine) : Nat := m.segPhys .es + if m.cpu.pmode then m.r32 .edi else m.di

/-- `dosiz_int10_vesa` AX=4F09 -/
def vesa4F09 (m : Machine) (d : Dac) : Dac :=
  if m.bl = 0x00 ∨ m.bl = 0x80 then setBlock d m.dx m.cx (bgrEntry m.mem (vesaBuffer m)) else d

/-! ### The palette of a mode -/

def cga16 : List (List Nat) :=
  [[0, 0, 0], [0, 0, 42], [0, 42, 0], [0, 42, 42], [42, 0, 0], [42, 0, 42], [42, 21, 0], [42, 42, 42],
    [21, 21, 21], [21, 21, 63], [21, 63, 21], [21, 63, 63], [63, 21, 21], [63, 21, 63], [63, 63, 21], [63, 63, 63]]

/-- `init_default_palette`: sixteen colours, the same at half the level, a cube of six levels and eight
    greys. -/
def defaultChannel (j c : Nat) : Nat :=
  if j < 16 then (cga16.getD j []).getD c 0
  else if j < 32 then (cga16.getD (j - 16) []).getD c 0 / 2
  else if j < 248 then
    match c with
    | 0 => (j - 32) / 36 * 12 + 3
    | 1 => (j - 32) / 6 % 6 * 12 + 3
    | _ => (j - 32) % 6 * 12 + 3
  else (j - 248) * 9

def defaultPalette (j : BitVec 8) (c : Nat) : BitVec 8 := BitVec.ofNat 8 (defaultChannel j.toNat c)

/-- `init` -/
def bootDac : Dac := ⟨defaultPalette, 0, 0, 0, 0, 0xFF⟩

/-! ### Runs -/

/-- `mode` stands for AH=0 and for AX=4F02 with eight bits; `input` comes with what the port answers. -/
inductive DacEvent where
  | output (port : Nat) (val : BitVec 8)
  | input (port : Nat) (val : BitVec 8)
  | int10 (m : Machine)
  | vesa (m : Machine)
  | mode

def dacStep (d : Dac) (e : DacEvent) (d' : Dac) : Prop :=
  match e with
  | .output port val => d' = portOut d port val
  | .input port val => (val, d') = portIn d port
  | .int10 m => d' = int10_10 m d
  | .vesa m => d' = vesa4F09 m d
  | .mode => d' = { d with dac := defaultPalette }

/-- The channels have six bits. -/
def SixBit (dac : BitVec 8 → Nat → BitVec 8) : Prop := ∀ j, ∀ c < 3, dac j c &&& 0x3F = dac j c

/-- The index of a channel stays within an entry, and every channel has six bits. -/
structure DacOk (d : Dac) : Prop where
  comp : d.comp < 3
  rcomp : d.rcomp < 3
  six : SixBit d.dac

section Invariant

variable {d d' : Dac}

theorem sixBit_setChannel {dac : BitVec 8 → Nat → BitVec 8} (h : SixBit dac) (j : BitVec 8) (c : Nat) (val : BitVec 8) :
    SixBit (setChannel dac j c val) := by
  intro j' c' hc'
  rw [setChannel]
  split_ifs with heq
  · rw [BitVec.and_assoc, BitVec.and_self]
  · exact h j' c' hc'

theorem sixBit_default : SixBit defaultPalette := by
  intro j c hc
  have hsmall : ∀ j < 256, ∀ c < 3, defaultChannel j c < 64 := by decide +kernel
  have hlt := hsmall j.toNat j.isLt c hc
  refine BitVec.eq_of_toNat_eq ?_
  rw [defaultPalette, BitVec.toNat_and, BitVec.toNat_ofNat, Nat.mod_eq_of_lt (by omega)]
  exact (Nat.and_two_pow_sub_one_eq_mod _ 6).trans (Nat.mod_eq_of_lt hlt)

theorem sixBit_setEntry {dac : BitVec 8 → Nat → BitVec 8} (h : SixBit dac) (j : BitVec 8)
    (rgb : BitVec 8 × BitVec 8 × BitVec 8) : SixBit (setEntry dac j rgb) :=
  sixBit_setChannel (sixBit_setChannel (sixBit_setChannel h _ _ _) _ _ _) _ _ _

theorem setDac_ok (h : DacOk d) (index : Nat) (rgb : BitVec 8 × BitVec 8 × BitVec 8) :
    DacOk (setDac d index rgb) := by
  rw [setDac]
  split_ifs
  · exact h
  · exact ⟨h.comp, h.rcomp, sixBit_setEntry h.six _ _⟩

theorem setBlock_succ (d : Dac) (index n : Nat) (entry : Nat → BitVec 8 × BitVec 8 × BitVec 8) :
    setBlock d index (n + 1) entry = setDac (setBlock d index n entry) (index + n) (entry n) := by
  rw [setBlock, List.range_succ, List.foldl_append]
  rfl

theorem setBlock_ok (h : DacOk d) (index n : Nat) (entry : Nat → BitVec 8 × BitVec 8 × BitVec 8) :
    DacOk (setBlock d index n entry) := by
  induction n with
  | zero => exact h
  | succ n ih =>
    rw [setBlock_succ]
    exact setDac_ok ih _ _

theorem portOut_ok (h : DacOk d) (port : Nat) (val : BitVec 8) : DacOk (portOut d port val) := by
  unfold portOut
  split
  · exact ⟨h.comp, h.rcomp, h.six⟩
  · exact ⟨h.comp, Nat.zero_lt_succ 2, h.six⟩
  · exact ⟨Nat.zero_lt_succ 2, h.rcomp, h.six⟩
  · split_ifs with hlast
    · exact ⟨Nat.zero_lt_succ 2, h.rcomp, sixBit_setChannel h.six _ _ _⟩
    · exact ⟨by dsimp only; omega, h.rcomp, sixBit_setChannel h.six _ _ _⟩
  · exact h

theorem portIn_ok (h : DacOk d) (port : Nat) : DacOk (portIn d port).2 := by
  unfold portIn
  split
  · exact h
  · exact h
  · dsimp only
    split_ifs with hlast
    · exact ⟨h.comp, Nat.zero_lt_succ 2, h.six⟩
    · exact ⟨h.comp, by dsimp only; omega, h.six⟩
  · exact h

theorem dacStep_ok {e : DacEvent} (h : DacOk d) (hs : dacStep d e d') : DacOk d' := by
  cases e with
  | output port val =>
    obtain rfl := hs
    exact portOut_ok h port val
  | input port val =>
    obtain rfl : d' = (portIn d port).2 := congrArg Prod.snd hs
    exact portIn_ok h port
  | int10 m =>
    obtain rfl := hs
    unfold int10_10
    split
    · exact setDac_ok h _ _
    · exact setBlock_ok h _ _ _
    · exact h
  | vesa m =>
    obtain rfl := hs
    unfold vesa4F09
    split
    · exact setBlock_ok h _ _ _
    · exact h
  | mode =>
    obtain rfl := hs
    exact ⟨h.comp, h.rcomp, sixBit_default⟩

theorem bootDac_ok : DacOk bootDac := ⟨Nat.zero_lt_succ 2, Nat.zero_lt_succ 2, sixBit_default⟩

end Invariant

/-! ### A block through the ports -/

/-- The entry that `k` channels from entry `i` lead to. -/
def entryAt (i : BitVec 8) (k : Nat) : BitVec 8 := i + BitVec.ofNat 8 (k / 3)

section Ports

variable {d d' : Dac} {i : BitVec 8}

theorem entryAt_succ (i : BitVec 8) (k : Nat) :
    (entryAt i (k + 1), (k + 1) % 3) =
      if 3 ≤ k % 3 + 1 then (entryAt i k + 1, 0) else (entryAt i k, k % 3 + 1) := by
  simp only [entryAt]
  split_ifs with h
  · have hdiv : (k + 1) / 3 = k / 3 + 1 := by omega
    have hmod : (k + 1) % 3 = 0 := by omega
    rw [hdiv, hmod, BitVec.ofNat_add, BitVec.add_assoc]
    rfl
  · have hdiv : (k + 1) / 3 = k / 3 := by omega
    have hmod : (k + 1) % 3 = k % 3 + 1 := by omega
    rw [hdiv, hmod]

/-- Channel `c` of entry `j` is the `k`-th channel from entry `i`, for the first time. -/
theorem entryAt_eq_iff {j : BitVec 8} {c k : Nat} (hc : c < 3) (hk : ¬3 * (j - i).toNat + c < k) :
    j = entryAt i k ∧ c = k % 3 ↔ 3 * (j - i).toNat + c < k + 1 := by
  have hentry : j = entryAt i k ↔ (j - i).toNat = (BitVec.ofNat 8 (k / 3)).toNat := by
    rw [entryAt]
    generalize BitVec.ofNat 8 (k / 3) = x
    constructor <;> intro h <;> bv_omega
  rw [hentry, BitVec.toNat_ofNat]
  have hj := (j - i).isLt
  omega

/-- One channel read. -/
theorem portIn_data (d : Dac) : (portIn d 0x3C9).1 = d.dac d.ridx d.rcomp ∧ (portIn d 0x3C9).2.dac = d.dac ∧
    ((portIn d 0x3C9).2.ridx, (portIn d 0x3C9).2.rcomp) =
      if 3 ≤ d.rcomp + 1 then (d.ridx + 1, 0) else (d.ridx, d.rcomp + 1) := by
  unfold portIn
  split_ifs <;> exact ⟨rfl, rfl, rfl⟩

/-- One channel written. -/
theorem portOut_data (d : Dac) (val : BitVec 8) :
    (portOut d 0x3C9 val).dac = setChannel d.dac d.widx d.comp val ∧
      ((portOut d 0x3C9 val).widx, (portOut d 0x3C9 val).comp) =
        if 3 ≤ d.comp + 1 then (d.widx + 1, 0) else (d.widx, d.comp + 1) := by
  unfold portOut
  dsimp only
  split_ifs <;> exact ⟨rfl, rfl⟩

/-- What a program reads from entry `i` on. -/
theorem reads_spec {L : List (BitVec 8)} (h : Run dacStep d (L.map (.input 0x3C9)) d')
    (hi : (d.ridx, d.rcomp) = (i, 0)) :
    d'.dac = d.dac ∧ (d'.ridx, d'.rcomp) = (entryAt i L.length, L.length % 3) ∧
      ∀ k < L.length, L[k]? = some (d.dac (entryAt i k) (k % 3)) := by
  induction L using List.reverseRecOn generalizing d' with
  | nil =>
    cases h
    exact ⟨rfl, by simpa [entryAt] using hi, fun k hk => absurd hk (Nat.not_lt_zero k)⟩
  | append_singleton L v ih =>
    rw [List.map_append] at h
    obtain ⟨u, hu, hlast⟩ := h.split
    obtain ⟨hdac, hpos, hvals⟩ := ih hu
    cases hlast with
    | cons hin rest =>
      cases rest
      obtain ⟨hval, hkeep, hnext⟩ := portIn_data u
      obtain ⟨hridx, hrcomp⟩ := Prod.mk.inj hpos
      have hv : v = (portIn u 0x3C9).1 := congrArg Prod.fst hin
      have hd' : d' = (portIn u 0x3C9).2 := congrArg Prod.snd hin
      rw [hd']
      refine ⟨hkeep.trans hdac, ?_, fun k hk => ?_⟩
      · rw [hnext, hridx, hrcomp, List.length_append, List.length_singleton, entryAt_succ]
      · rw [List.length_append, List.length_singleton] at hk
        rcases Nat.lt_succ_iff_lt_or_eq.mp hk with hlt | rfl
        · rw [List.getElem?_append_left hlt]
          exact hvals k hlt
        · rw [List.getElem?_append_right (le_refl _), Nat.sub_self, hv, hval, hdac, hridx, hrcomp]
          rfl

/-- What a program writes from entry `i` on, when that is what `D` has there. -/
theorem writes_spec {D : BitVec 8 → Nat → BitVec 8} {L : List (BitVec 8)} (hD : SixBit D)
    (h : Run dacStep d (L.map (.output 0x3C9)) d') (hi : (d.widx, d.comp) = (i, 0))
    (hL : ∀ k < L.length, L[k]? = some (D (entryAt i k) (k % 3))) :
    (d'.widx, d'.comp) = (entryAt i L.length, L.length % 3) ∧
      ∀ j, ∀ c < 3, d'.dac j c = if 3 * (j - i).toNat + c < L.length then D j c else d.dac j c := by
  induction L using List.reverseRecOn generalizing d' with
  | nil =>
    cases h
    exact ⟨by simpa [entryAt] using hi, fun j c _ => (if_neg (Nat.not_lt_zero _)).symm⟩
  | append_singleton L v ih =>
    rw [List.map_append] at h
    obtain ⟨u, hu, hlast⟩ := h.split
    have hlen : (L ++ [v]).length = L.length + 1 := by simp
    have hbefore : ∀ k < L.length, L[k]? = some (D (entryAt i k) (k % 3)) := fun k hk => by
      rw [← @List.getElem?_append_left _ L [v] k hk]
      exact hL k (by omega)
    have hv : v = D (entryAt i L.length) (L.length % 3) := by
      have hnew := hL L.length (by omega)
      rw [List.getElem?_append_right (le_refl _), Nat.sub_self] at hnew
      exact Option.some.inj hnew
    obtain ⟨hpos, hdac⟩ := ih hu hbefore
    cases hlast with
    | cons hout rest =>
      cases rest
      obtain ⟨hset, hnext⟩ := portOut_data u v
      obtain ⟨hwidx, hcomp⟩ := Prod.mk.inj hpos
      obtain rfl := hout
      refine ⟨?_, fun j c hc => ?_⟩
      · rw [hnext, hwidx, hcomp, hlen, entryAt_succ]
      · rw [hset, setChannel, hwidx, hcomp, hdac j c hc, hlen, hv, hD _ _ (Nat.mod_lt _ (by decide))]
        by_cases hin : 3 * (j - i).toNat + c < L.length
        · rw [if_pos hin, if_pos (Nat.lt_succ_of_lt hin)]
          split_ifs with heq
          · rw [heq.1, heq.2]
          · rfl
        · rw [if_neg hin]
          by_cases heq : j = entryAt i L.length ∧ c = L.length % 3
          · rw [if_pos heq, if_pos ((entryAt_eq_iff hc hin).mp heq), ← heq.1, ← heq.2]
          · rw [if_neg heq, if_neg fun h => heq ((entryAt_eq_iff hc hin).mpr h)]

end Ports

/-! ### Saved and restored -/

/-- **What a program has read it can write back.**  In every reachable state: after reading any number of
    channels from entry `i` on, anything at all may happen to the palette (`d₂`); writing back what was read, from entry
    `i` on, brings back exactly the channels read. -/
theorem palette_restored {es₀ : List DacEvent} {d d₁ d₂ d₃ : Dac} {i : BitVec 8} {L : List (BitVec 8)}
    (hreach : Run dacStep bootDac es₀ d) (hread : Run dacStep d (.output 0x3C7 i :: L.map (.input 0x3C9)) d₁)
    (hwrite : Run dacStep d₂ (.output 0x3C8 i :: L.map (.output 0x3C9)) d₃) :
    ∀ j, ∀ c < 3, d₃.dac j c = if 3 * (j - i).toNat + c < L.length then d.dac j c else d₂.dac j c := by
  have hok : DacOk d := hreach.invariant (fun _ _ _ h hs => dacStep_ok h hs) bootDac_ok
  cases hread with
  | cons hindex hread =>
    obtain rfl := hindex
    obtain ⟨-, -, hvals⟩ := reads_spec hread rfl
    cases hwrite with
    | cons hindex' hwrite =>
      obtain rfl := hindex'
      exact (writes_spec hok.six hwrite rfl hvals).2

/-- Four channels read from entry 255 on, the last one of entry 0. -/
def readFour : Dac :=
  (portIn (portIn (portIn (portIn (portOut bootDac 0x3C7 255) 0x3C9).2 0x3C9).2 0x3C9).2 0x3C9).2

def writeFour (d : Dac) : Dac :=
  portOut (portOut (portOut (portOut (portOut d 0x3C8 255) 0x3C9 63) 0x3C9 63) 0x3C9 63) 0x3C9 0

/-- The first channel of entry 0 is set in between, and comes back. -/
theorem palette_restored_wraps :
    (writeFour (portOut (portOut readFour 0x3C8 0) 0x3C9 21)).dac 0 0 = bootDac.dac 0 0 := by
  have hread : Run dacStep bootDac (.output 0x3C7 255 :: [63, 63, 63, 0].map (.input 0x3C9)) readFour :=
    .cons rfl (.cons (Prod.ext (by decide +kernel) rfl) (.cons (Prod.ext (by decide +kernel) rfl)
      (.cons (Prod.ext (by decide +kernel) rfl) (.single (Prod.ext (by decide +kernel) rfl)))))
  have hwrite : Run dacStep (portOut (portOut readFour 0x3C8 0) 0x3C9 21)
      (.output 0x3C8 255 :: [63, 63, 63, 0].map (.output 0x3C9))
      (writeFour (portOut (portOut readFour 0x3C8 0) 0x3C9 21)) :=
    .cons rfl (.cons rfl (.cons rfl (.cons rfl (.single rfl))))
  exact (palette_restored (.nil bootDac) hread hwrite 0 0 (by decide)).trans (if_pos (by decide))

/-! ### Calls and ports -/

/-- A block of entries through the ports. -/
def portsBlock (d : Dac) (index n : Nat) (entry : Nat → BitVec 8 × BitVec 8 × BitVec 8) : Dac :=
  (List.range n).foldl
    (fun d i => portOut (portOut (portOut d 0x3C9 (entry i).1) 0x3C9 (entry i).2.1) 0x3C9 (entry i).2.2)
    (portOut d 0x3C8 (BitVec.ofNat 8 index))

section Blocks

variable (d : Dac) (index : Nat) (entry : Nat → BitVec 8 × BitVec 8 × BitVec 8)

/-- Three channels through the port, from the first one of an entry. -/
theorem portOut_entry {d : Dac} (hcomp : d.comp = 0) (rgb : BitVec 8 × BitVec 8 × BitVec 8) :
    portOut (portOut (portOut d 0x3C9 rgb.1) 0x3C9 rgb.2.1) 0x3C9 rgb.2.2 =
      { d with dac := setEntry d.dac d.widx rgb, widx := d.widx + 1 } := by
  obtain ⟨dac, widx, comp, ridx, rcomp, pelMask⟩ := d
  obtain rfl := hcomp
  rfl

theorem portsBlock_succ (n : Nat) : portsBlock d index (n + 1) entry =
    portOut (portOut (portOut (portsBlock d index n entry) 0x3C9 (entry n).1) 0x3C9 (entry n).2.1) 0x3C9
      (entry n).2.2 := by
  rw [portsBlock, List.range_succ, List.foldl_append]
  rfl

/-- Where the ports are after a block. -/
theorem portsBlock_index (n : Nat) :
    (portsBlock d index n entry).widx = BitVec.ofNat 8 (index + n) ∧ (portsBlock d index n entry).comp = 0 := by
  induction n with
  | zero => exact ⟨rfl, rfl⟩
  | succ n ih =>
    obtain ⟨hwidx, hcomp⟩ := ih
    rw [portsBlock_succ, portOut_entry hcomp]
    refine ⟨?_, hcomp⟩
    rw [hwidx]
    exact (BitVec.ofNat_add (index + n) 1).symm

theorem portsBlock_dac (n : Nat) : (portsBlock d index (n + 1) entry).dac =
    setEntry (portsBlock d index n entry).dac (BitVec.ofNat 8 (index + n)) (entry n) := by
  obtain ⟨hwidx, hcomp⟩ := portsBlock_index d index entry n
  rw [portsBlock_succ, portOut_entry hcomp, hwidx]

/-- Within the palette a call sets what the ports set. -/
theorem setBlock_eq_ports {n : Nat} (h : index + n ≤ 256) :
    (setBlock d index n entry).dac = (portsBlock d index n entry).dac := by
  induction n with
  | zero => rfl
  | succ n ih =>
    rw [portsBlock_dac, ← ih (by omega), setBlock_succ, setDac, if_neg (by omega)]

/-- Beyond the palette a call sets nothing. -/
theorem setBlock_beyond {n : Nat} (hd : ∀ j c, d.dac j c = 0) (hentry : ∀ i, index + i ≤ 255 → entry i = (0, 0, 0)) :
    ∀ j c, (setBlock d index n entry).dac j c = 0 := by
  induction n with
  | zero => exact hd
  | succ n ih =>
    intro j c
    rw [setBlock_succ, setDac]
    split_ifs with h
    · exact ih j c
    · rw [hentry n (by omega)]
      simp only [setEntry, setChannel]
      split_ifs <;> first | rfl | exact ih j c

end Blocks

/-- A palette that is black, with the ports as at the start. -/
def black : Dac := { bootDac with dac := fun _ _ => 0 }

/-- With a table that is black within the palette and not beyond, the ports go round to its last entry. -/
theorem within_of_agree {index n : Nat} {entry : Nat → BitVec 8 × BitVec 8 × BitVec 8} (hn : n < 65536)
    (hentry : ∀ i < 65536, entry i = if 256 ≤ index + i then (1, 1, 1) else (0, 0, 0))
    (h : (setBlock black index n entry).dac = (portsBlock black index n entry).dac) : n = 0 ∨ index + n ≤ 256 := by
  by_contra hbeyond
  obtain ⟨k, rfl⟩ : ∃ k, n = k + 1 := ⟨n - 1, by omega⟩
  have hin : ∀ i, index + i ≤ 255 → entry i = (0, 0, 0) := fun i hi =>
    (hentry i (by omega)).trans (if_neg (by omega))
  have hlast : entry k = (1, 1, 1) := (hentry k (by omega)).trans (if_pos (by omega))
  have hzero := setBlock_beyond black index entry (n := k + 1) (fun _ _ => rfl) hin (BitVec.ofNat 8 (index + k)) 2
  rw [h, portsBlock_dac, hlast] at hzero
  simp [setEntry, setChannel] at hzero

/-- Such a table at 0, with entries of `size` bytes. -/
def tableMem (index size : Nat) : Mem := fun a => if 256 ≤ index + a / size then 1 else 0

theorem tableMem_entry {index size i c : Nat} (hi : i < 65536) (hc : c < size) (hsize : size ≤ 4) :
    byteAt (tableMem index size) (i * size + c) = if 256 ≤ index + i then 1 else 0 := by
  have hdiv : (i * size + c) / size = i := by
    rw [Nat.mul_comm, Nat.mul_add_div (by omega), Nat.div_eq_of_lt hc, Nat.add_zero]
  have hsmall : i * size + c < 4294967296 := by
    have := Nat.mul_le_mul hi.le hsize
    omega
  rw [byteAt, lin_of_lt hsmall, tableMem, hdiv]
  split_ifs <;> rfl

/-- The registers of a call, with a table at 0. -/
def tableMachine (eax ebx ecx edx : BitVec 32) (mem : Mem) : Machine :=
  (bootMachine.setRegs fun
    | .eax => eax
    | .ebx => ebx
    | .ecx => ecx
    | .edx => edx
    | _ => 0).setMem mem

theorem word_toNat (w : BitVec 16) : (w.setWidth 32).toNat % 65536 = w.toNat := by
  have hw := w.isLt
  rw [BitVec.toNat_setWidth]
  omega

theorem rgbEntry_table {index i : Nat} (hi : i < 65536) :
    rgbEntry (tableMem index 3) 0 i = if 256 ≤ index + i then (1, 1, 1) else (0, 0, 0) := by
  have hfirst : byteAt (tableMem index 3) (i * 3) = if 256 ≤ index + i then 1 else 0 :=
    tableMem_entry (c := 0) hi (by decide) (by decide)
  simp only [rgbEntry, Nat.zero_add, hfirst]
  rw [tableMem_entry hi (by decide) (by decide), tableMem_entry hi (by decide) (by decide)]
  split_ifs <;> rfl

theorem bgrEntry_table {index i : Nat} (hi : i < 65536) :
    bgrEntry (tableMem index 4) 0 i = if 256 ≤ index + i then (1, 1, 1) else (0, 0, 0) := by
  have hfirst : byteAt (tableMem index 4) (i * 4) = if 256 ≤ index + i then 1 else 0 :=
    tableMem_entry (c := 0) hi (by decide) (by decide)
  simp only [bgrEntry, Nat.zero_add, hfirst]
  rw [tableMem_entry hi (by decide) (by decide), tableMem_entry hi (by decide) (by decide)]
  split_ifs <;> rfl

theorem int10_10_block {m : Machine} (d : Dac) (hal : m.r8l .eax = 0x12) :
    int10_10 m d = setBlock d m.bx m.cx (rgbEntry m.mem (m.segPhys .es + m.dx)) := by
  simp only [int10_10, hal]

theorem vesa4F09_block {m : Machine} (d : Dac) (hbl : m.bl = 0 ∨ m.bl = 0x80) :
    vesa4F09 m d = setBlock d m.dx m.cx (bgrEntry m.mem (vesaBuffer m)) :=
  if_pos hbl

/-- **A call is the ports, within the palette.**  A call with a block of `n` entries from `index` on sets what the
    ports set, for every palette and table, exactly when the block is empty or ends within the palette: the ports go
    round, the calls leave out what is beyond. -/
theorem int10_block_iff (index n : BitVec 16) :
    ((∀ d m, m.r8l .eax = 0x12 → m.bx = index.toNat → m.cx = n.toNat → (int10_10 m d).dac =
          (portsBlock d index.toNat n.toNat (rgbEntry m.mem (m.segPhys .es + m.dx))).dac) ↔
        n.toNat = 0 ∨ index.toNat + n.toNat ≤ 256) ∧
      ((∀ d m, m.bl = 0 ∨ m.bl = 0x80 → m.dx = index.toNat → m.cx = n.toNat → (vesa4F09 m d).dac =
          (portsBlock d index.toNat n.toNat (bgrEntry m.mem (vesaBuffer m))).dac) ↔
        n.toNat = 0 ∨ index.toNat + n.toNat ≤ 256) := by
  have hback : n.toNat = 0 ∨ index.toNat + n.toNat ≤ 256 → ∀ d entry,
      (setBlock d index.toNat n.toNat entry).dac = (portsBlock d index.toNat n.toNat entry).dac := by
    rintro (h₀ | hin) d entry
    · rw [h₀]
      rfl
    · exact setBlock_eq_ports d index.toNat entry hin
  have hindex := word_toNat index
  have hcount := word_toNat n
  refine ⟨⟨fun h => ?_, fun hin d m hal hbx hcx => ?_⟩, ⟨fun h => ?_, fun hin d m hbl hdx hcx => ?_⟩⟩
  · have hagree := h black (tableMachine 0x12 (index.setWidth 32) (n.setWidth 32) 0 (tableMem index.toNat 3)) rfl
      hindex hcount
    rw [int10_10_block _ rfl] at hagree
    refine within_of_agree n.isLt (fun i hi => rgbEntry_table hi) ?_
    rw [← hindex, ← hcount] at hagree ⊢
    exact hagree
  · rw [int10_10_block d hal, hbx, hcx]
    exact hback hin d _
  · have hagree := h black (tableMachine 0 0 (n.setWidth 32) (index.setWidth 32) (tableMem index.toNat 4))
      (.inl rfl) hindex hcount
    rw [vesa4F09_block _ (.inl rfl)] at hagree
    refine within_of_agree n.isLt (fun i hi => bgrEntry_table hi) ?_
    rw [← hindex, ← hcount] at hagree ⊢
    exact hagree
  · rw [vesa4F09_block d hbl, hdx, hcx]
    exact hback hin d _

end Dosiz.Palette
