/-
  Dosiz/XmsMove.lean
  ==================
  **Function 0Bh of the XMS driver** (`dosiz_xms_driver` of `bridge.cc`).

  A move structure names two regions, each by a handle and an offset, or, with handle 0,
  by a real-mode far pointer.  The driver looks the handles up and copies; it never looks
  at the sizes of the blocks.  `xmsMove_iff`: a move is sound exactly if a handle is
  refused or both regions lie in the blocks they are named in, and a real-mode region does
  not reach the descriptor tables above 1 MB.
-/
import Dosiz.XmsHandles
import Dosiz.DescriptorFields

namespace Dosiz.XmsHandles

open ByteMemory Machine PmArena Extents Transition

/-! ### The driver -/

/-- The move structure: `len`, `sh`, `soff`, `dh`, `doff`. -/
structure MoveStruct where
  len : Nat
  sh : Nat
  soff : Nat
  dh : Nat
  doff : Nat

def readMove (m : Machine) : MoveStruct :=
  let s := lin (m.segPhys .ds + m.si)
  { len := readd m.mem (lin s)
    sh := readw m.mem (lin (s + 4))
    soff := readd m.mem (lin (s + 6))
    dh := readw m.mem (lin (s + 10))
    doff := readd m.mem (lin (s + 12)) }

/-- `rm_far_to_linear` -/
def rmFarToLinear (packed : Nat) : Nat := packed / 65536 % 65536 * 16 + packed % 65536

/-- `slin`, `dlin`: where a region begins; none if the handle is unknown. -/
def moveAddr (x : Xms) (h off : Nat) : Option Nat :=
  if h = 0 then some (rmFarToLinear off)
  else (x.handles.lookup h).map fun base => lin (base + off)

/-- The copy loop, after `n` bytes. -/
def moveBytes (mem : Mem) (dlin slin : Nat) : Nat → Mem
  | 0 => mem
  | n + 1 =>
    let mem := moveBytes mem dlin slin n
    writeb mem (lin (dlin + n)) (readb mem (lin (slin + n)))

/-- Function 0Bh: move memory. -/
def xms_0B (x : Xms) (m : Machine) : Machine :=
  let p := readMove m
  match moveAddr x p.sh p.soff with
  | none => (m.setR16 .eax 0).setR8l .ebx 0xA3
  | some slin =>
    match moveAddr x p.dh p.doff with
    | none => (m.setR16 .eax 0).setR8l .ebx 0xA5
    | some dlin => (m.setMem (moveBytes m.mem dlin slin p.len)).setR16 .eax 1

/-! ### What a move may touch -/

/-- GDT, IDT and LDT. -/
def hostTables : Set Nat := descTables ∪ Set.Ico IDT_BASE (IDT_BASE + IDT_LIMIT + 1)

/-- The bytes a handle names: those of its block, or real-mode memory without the tables. -/
def namedBytes (x : Xms) (h : Nat) : Set Nat :=
  { a | if h = 0 then a < 0x110000 ∧ a ∉ hostTables
        else ∃ base kb, x.handles.lookup h = some base ∧ x.sizes.lookup h = some kb ∧
          ∃ j < kb * 1024, a = lin (base + j) }

/-- The region ends in its block, or below 110000h. -/
def RegionInside (x : Xms) (h off len : Nat) : Prop :=
  if h = 0 then rmFarToLinear off + len ≤ 0x110000
  else ∃ base kb, x.handles.lookup h = some base ∧ x.sizes.lookup h = some kb ∧ off + len ≤ kb * 1024

/-- A real-mode region does not reach the tables. -/
def ClearOfTables (h off len : Nat) : Prop := h = 0 → ∀ i < len, rmFarToLinear off + i ∉ hostTables

/-- The two regions share no byte. -/
def RegionsApart (slin dlin len : Nat) : Prop := ∀ i < len, ∀ j < len, lin (slin + i) ≠ lin (dlin + j)

/-- AX=1 for regions inside their blocks, or AX=0 and no change; a move reads and writes in the named blocks
    only, and copies. -/
structure MoveSound (x : Xms) (m r : Machine) (p : MoveStruct) : Prop where
  status : (r.ax = 1 ∧ RegionInside x p.sh p.soff p.len ∧ RegionInside x p.dh p.doff p.len) ∨
    (r.ax = 0 ∧ r.mem = m.mem)
  moved : r.ax = 1 → ∀ slin dlin, moveAddr x p.sh p.soff = some slin → moveAddr x p.dh p.doff = some dlin →
    AgreesOff { a | ∃ i < p.len, a = lin (dlin + i) } m.mem r.mem ∧
      (RegionsApart slin dlin p.len → ∀ i < p.len, readb r.mem (lin (dlin + i)) = readb m.mem (lin (slin + i))) ∧
      ∀ i < p.len, lin (slin + i) ∈ namedBytes x p.sh ∧ lin (dlin + i) ∈ namedBytes x p.dh

/-! ### The copy -/

theorem moveBytes_off (mem : Mem) (dlin slin n : Nat) :
    AgreesOff { a | ∃ i < n, a = lin (dlin + i) } mem (moveBytes mem dlin slin n) := by
  induction n with
  | zero => exact AgreesOff.refl _ _
  | succ n ih =>
    refine (ih.mono fun a ha => ?_).trans ((writeb_off _ _ _).mono fun a ha => ?_)
    · obtain ⟨i, hi, rfl⟩ := ha
      exact ⟨i, Nat.lt_succ_of_lt hi, rfl⟩
    · exact ⟨n, Nat.lt_succ_self n, Nat.le_antisymm (Nat.lt_succ_iff.mp ha.2) ha.1⟩

theorem readb_moveBytes (mem : Mem) {dlin slin : Nat} : ∀ {n : Nat}, n ≤ 4294967296 →
    RegionsApart slin dlin n → ∀ i < n,
      readb (moveBytes mem dlin slin n) (lin (dlin + i)) = readb mem (lin (slin + i))
  | 0, _, _, i, hi => absurd hi (Nat.not_lt_zero i)
  | n + 1, hn, hap, i, hi => by
    have hsource : readb (moveBytes mem dlin slin n) (lin (slin + n)) = readb mem (lin (slin + n)) := by
      refine (moveBytes_off mem dlin slin n).readb ?_
      rintro ⟨j, hj, heq⟩
      exact hap n (Nat.lt_succ_self n) j (Nat.lt_succ_of_lt hj) heq
    rw [moveBytes]
    rcases Nat.lt_succ_iff_lt_or_eq.mp hi with hlt | rfl
    · have hne : lin (dlin + i) ≠ lin (dlin + n) := fun heq => by
        have heq' := lin_add_inj (by omega) (by omega) heq
        omega
      rw [readb_writeb_of_ne hne]
      exact readb_moveBytes mem (by omega)
        (fun a ha b hb => hap a (Nat.lt_succ_of_lt ha) b (Nat.lt_succ_of_lt hb)) i hlt
    · rw [readb_writeb, hsource, Nat.mod_eq_of_lt (readb_lt _ _)]

/-! ### The regions -/

/-- The bytes of a region inside its block are bytes of the block. -/
theorem named_of_inside {x : Xms} {h off len a : Nat} (ha : moveAddr x h off = some a)
    (hin : RegionInside x h off len) (hclear : ClearOfTables h off len) {i : Nat} (hi : i < len) :
    lin (a + i) ∈ namedBytes x h := by
  unfold moveAddr at ha
  unfold RegionInside at hin
  by_cases hh : h = 0
  · rw [if_pos hh] at ha hin
    obtain rfl := Option.some.inj ha
    have hlin : lin (rmFarToLinear off + i) = rmFarToLinear off + i := Nat.mod_eq_of_lt (by omega)
    simp only [namedBytes, Set.mem_ofPred_eq, if_pos hh, hlin]
    exact ⟨by omega, hclear hh i hi⟩
  · rw [if_neg hh] at ha hin
    obtain ⟨base, kb, hbase, hkb, hle⟩ := hin
    rw [hbase, Option.map_some] at ha
    obtain rfl := Option.some.inj ha
    simp only [namedBytes, Set.mem_ofPred_eq, if_neg hh]
    refine ⟨base, kb, hbase, hkb, off + i, by omega, ?_⟩
    simp only [lin]
    omega

theorem clear_of_named {x : Xms} {h off len a : Nat} (ha : moveAddr x h off = some a)
    (hin : RegionInside x h off len) (hnamed : ∀ i < len, lin (a + i) ∈ namedBytes x h) :
    ClearOfTables h off len := by
  intro hh i hi
  unfold moveAddr at ha
  unfold RegionInside at hin
  rw [if_pos hh] at ha hin
  obtain rfl := Option.some.inj ha
  have hlin : lin (rmFarToLinear off + i) = rmFarToLinear off + i := Nat.mod_eq_of_lt (by omega)
  have hmem := hnamed i hi
  simp only [namedBytes, Set.mem_ofPred_eq, if_pos hh, hlin] at hmem
  exact hmem.2

/-! ### The call -/

theorem ax_refused (m : Machine) (code : Nat) : ((m.setR16 .eax 0).setR8l .ebx code).ax = 0 := by
  rw [ax, r16, setR8l, r32_setR32_of_ne _ _ (by decide)]
  exact r16_setR16 m .eax 0

/-- A handle the driver does not know. -/
def Unknown (x : Xms) (p : MoveStruct) : Prop := moveAddr x p.sh p.soff = none ∨ moveAddr x p.dh p.doff = none

theorem xms_0B_refused {x : Xms} {m : Machine} (h : Unknown x (readMove m)) :
    (xms_0B x m).ax = 0 ∧ (xms_0B x m).mem = m.mem := by
  unfold xms_0B
  dsimp only
  rcases h with h | h
  · rw [h]
    exact ⟨ax_refused m _, rfl⟩
  · cases hs : moveAddr x (readMove m).sh (readMove m).soff with
    | none => exact ⟨ax_refused m _, rfl⟩
    | some slin =>
      rw [h]
      exact ⟨ax_refused m _, rfl⟩

theorem xms_0B_moved {x : Xms} {m : Machine} {slin dlin : Nat}
    (hs : moveAddr x (readMove m).sh (readMove m).soff = some slin)
    (hd : moveAddr x (readMove m).dh (readMove m).doff = some dlin) :
    (xms_0B x m).ax = 1 ∧ (xms_0B x m).mem = moveBytes m.mem dlin slin (readMove m).len := by
  unfold xms_0B
  dsimp only
  rw [hs, hd]
  exact ⟨r16_setR16 _ .eax 1, rfl⟩

theorem readMove_len (m : Machine) : (readMove m).len < 4294967296 := readd_lt _ _

/-- A refused move is sound. -/
theorem refused_sound {x : Xms} {m : Machine} (h : Unknown x (readMove m)) :
    MoveSound x m (xms_0B x m) (readMove m) := by
  obtain ⟨hax, hmem⟩ := xms_0B_refused h
  refine ⟨Or.inr ⟨hax, hmem⟩, fun hone => ?_⟩
  rw [hax] at hone
  cases hone

/-- **Function 0Bh.** -/
theorem xmsMove_iff (x : Xms) (m : Machine) :
    MoveSound x m (xms_0B x m) (readMove m) ↔ Unknown x (readMove m) ∨
      (RegionInside x (readMove m).sh (readMove m).soff (readMove m).len ∧
        RegionInside x (readMove m).dh (readMove m).doff (readMove m).len ∧
        ClearOfTables (readMove m).sh (readMove m).soff (readMove m).len ∧
        ClearOfTables (readMove m).dh (readMove m).doff (readMove m).len) := by
  constructor
  · intro h
    by_cases hu : Unknown x (readMove m)
    · exact Or.inl hu
    · obtain ⟨hs, hd⟩ := not_or.mp hu
      obtain ⟨slin, hs⟩ := Option.ne_none_iff_exists'.mp hs
      obtain ⟨dlin, hd⟩ := Option.ne_none_iff_exists'.mp hd
      have hax := (xms_0B_moved hs hd).1
      rcases h.status with ⟨-, hsin, hdin⟩ | ⟨hzero, -⟩
      · have hnamed := (h.moved hax slin dlin hs hd).2.2
        exact Or.inr ⟨hsin, hdin, clear_of_named hs hsin fun i hi => (hnamed i hi).1,
          clear_of_named hd hdin fun i hi => (hnamed i hi).2⟩
      · rw [hax] at hzero
        cases hzero
  · rintro (hu | ⟨hsin, hdin, hsclear, hdclear⟩)
    · exact refused_sound hu
    · by_cases hu : Unknown x (readMove m)
      · exact refused_sound hu
      · obtain ⟨hs, hd⟩ := not_or.mp hu
        obtain ⟨slin, hs⟩ := Option.ne_none_iff_exists'.mp hs
        obtain ⟨dlin, hd⟩ := Option.ne_none_iff_exists'.mp hd
        obtain ⟨hax, hmem⟩ := xms_0B_moved hs hd
        refine ⟨Or.inl ⟨hax, hsin, hdin⟩, fun _ slin' dlin' hs' hd' => ?_⟩
        obtain rfl := Option.some.inj (hs.symm.trans hs')
        obtain rfl := Option.some.inj (hd.symm.trans hd')
        rw [hmem]
        exact ⟨moveBytes_off _ _ _ _, readb_moveBytes m.mem (readMove_len m).le,
          fun i hi => ⟨named_of_inside hs hsin hsclear hi, named_of_inside hd hdin hdclear hi⟩⟩

/-- While the handles own their blocks, the bytes of a handle are bytes of no other block, and no table. -/
theorem named_apart {s : XmsHost} (h : Owned s) {a b : Nat} (ha : a ≠ 0)
    (hb : s.xms.handles.lookup a = some b) {y : Nat} (hy : y ∈ namedBytes s.xms a) :
    y ∉ hostTables ∧ ∀ f ∈ s.machine.pmBusy, f.base ≠ b → y < f.base ∨ f.stop ≤ y := by
  obtain ⟨kb, hkb, e, he, rfl, hsize⟩ := h.stands a b hb
  have hfit := h.pm.packed.fits e he
  have hlow := hfit.low
  have hhigh := hfit.high
  have hend := h.pm.high
  simp only [namedBytes, Set.mem_ofPred_eq, if_neg ha] at hy
  obtain ⟨base, kb', hbase, hkb', j, hj, rfl⟩ := hy
  obtain rfl := Option.some.inj (hb.symm.trans hbase)
  obtain rfl := Option.some.inj (hkb.symm.trans hkb')
  simp only [Extent.stop, PM_ARENA_START] at hlow hhigh
  have hlin : lin (e.base + j) = e.base + j := Nat.mod_eq_of_lt (by omega)
  rw [hlin]
  constructor
  · rintro ((hx | hx) | hx)
    · have hx' := hx.2
      simp only [GDT_BASE, GDT_LIMIT] at hx'
      omega
    · have hx' := hx.2
      simp only [LDT_BASE, LDT_BYTES] at hx'
      omega
    · have hx' := hx.2
      simp only [IDT_BASE, IDT_LIMIT] at hx'
      omega
  · intro f hf hne
    have hap := apart_of_base_ne h.pm he hf hne
    simp only [Apart, Extent.stop] at hap ⊢
    omega

/-! ### A stray offset -/

/-- Handle 1 has 1 KB at 120000h; the move is of 16 bytes from 0:0 to its offset FFFE4000h. -/
def strayMove : Machine :=
  { bootMachine with
    mem := storeBytes bootMachine.mem 0
      [16, 0, 0, 0, 0, 0, 0, 0, 0, 0, 1, 0, 0x00, 0x40, 0xFE, 0xFF] }

def oneBlock : Xms := ⟨(∅ : AList _).insert 1 0x120000, (∅ : AList _).insert 1 1, 2⟩

/-- AX=1, and the first LDT descriptor is overwritten. -/
theorem xmsMove_stray : (xms_0B oneBlock strayMove).ax = 1 ∧
    readb strayMove.mem LDT_BASE ≠ readb (xms_0B oneBlock strayMove).mem LDT_BASE ∧
    ¬ MoveSound oneBlock strayMove (xms_0B oneBlock strayMove) (readMove strayMove) := by
  have hrun : (xms_0B oneBlock strayMove).ax = 1 ∧ readb strayMove.mem LDT_BASE = 0 ∧
      readb (xms_0B oneBlock strayMove).mem LDT_BASE = 16 := by
    decide +kernel
  refine ⟨hrun.1, by rw [hrun.2.1, hrun.2.2]; decide, fun h => ?_⟩
  rcases h.status with ⟨-, -, hin⟩ | ⟨hzero, -⟩
  · have hmove : (readMove strayMove).dh = 1 ∧ (readMove strayMove).doff = 0xFFFE4000 := by
      decide +kernel
    rw [hmove.1, hmove.2, RegionInside, if_neg (by decide)] at hin
    obtain ⟨base, kb, -, hkb, hle⟩ := hin
    have hone : oneBlock.sizes.lookup 1 = some 1 := by
      decide +kernel
    rw [hone] at hkb
    obtain rfl := Option.some.inj hkb
    omega
  · rw [hrun.1] at hzero
    cases hzero

end Dosiz.XmsHandles
