/-
  Dosiz/Descriptors.lean
  ======================
  **Descriptor tables.**

  The eight-byte descriptors and gates the DPMI host writes into the guest's GDT, LDT
  and IDT, the LDT allocation bitmap, and the engine interface that reads descriptors
  back: `write_gdt_descriptor`, `write_ldt_descriptor`, `write_idt_gate`,
  `selector_table_base`, `selector_is_valid`, `ldt_find_run`, `reload_loaded_selector`
  of `bridge.cc`, and `Descriptor`, `GetDescriptor`, `CPU_SetSegGeneral`, `SegSet16`,
  `CPU_SET_CRX`, `CPU_LIDT` of the compatibility layer.

  The CPU engine itself is not part of the repository.  What loading a segment register
  makes it do is the parameter `Engine`.
-/
import Dosiz.Machine

namespace Dosiz

open ByteMemory Machine

/-! ### The engine -/

/-- The segment loads of the CPU engine: the new register (selector and cached base) and
    the D/B bit of the loaded segment. -/
structure Engine where
  loadSegment : Mem → Cpu → SegName → Nat → SegReg × Bool
  loadSegmentReal : Cpu → SegName → Nat → SegReg × Bool

/-- `mirror_seg`: the interface register, and the stack or code size with it. -/
def mirrorSeg (m : Machine) (s : SegName) (r : SegReg × Bool) : Machine :=
  { m with cpu := { m.cpu with
      segs := Function.update m.cpu.segs s r.1
      stackBig := if s = .ss then r.2 else m.cpu.stackBig
      codeBig := if s = .cs then r.2 else m.cpu.codeBig } }

/-- `CPU_SetSegGeneral` -/
def cpuSetSegGeneral (eng : Engine) (m : Machine) (s : SegName) (v : Nat) : Machine :=
  mirrorSeg m s (eng.loadSegment m.mem m.cpu s v)

/-- `SegSet16` -/
def segSet16 (eng : Engine) (m : Machine) (s : SegName) (v : Nat) : Machine :=
  mirrorSeg m s (eng.loadSegmentReal m.cpu s v)

/-- `CPU_SET_CRX(0, value)` -/
def cpuSetCr0 (m : Machine) (value : Nat) : Machine :=
  { m with cpu := { m.cpu with cr0 := value, pmode := value % 2 = 1 } }

/-- `CPU_LIDT` -/
def cpuLidt (m : Machine) (limit base : Nat) : Machine :=
  { m with cpu := { m.cpu with idtLimit := limit, idtBase := base } }

/-- `CPU_LGDT` -/
def cpuLgdt (m : Machine) (limit base : Nat) : Machine :=
  { m with cpu := { m.cpu with gdtLimit := limit, gdtBase := base } }

/-! ### Descriptors in memory -/

/-- The eight bytes of a code or data descriptor. -/
def descriptorBytes (base limit access : Nat) (bits32 : Bool) : List Nat :=
  [limit % 256, limit / 256 % 256, base % 256, base / 256 % 256, base / 65536 % 256, access,
    limit / 65536 % 16 + (if bits32 then 0x40 else 0x00), base / 16777216 % 256]

/-- `write_gdt_descriptor` -/
def writeGdtDescriptor (mem : Mem) (idx base limit access : Nat) (bits32 : Bool) : Mem :=
  storeBytes mem (GDT_BASE + idx * 8) (descriptorBytes base limit access bits32)

/-- `write_ldt_descriptor` -/
def writeLdtDescriptor (mem : Mem) (idx base limit access : Nat) (bits32 : Bool) : Mem :=
  storeBytes mem (LDT_BASE + idx * 8) (descriptorBytes base limit access bits32)

/-- `write_idt_gate` -/
def writeIdtGate (mem : Mem) (idx sel off : Nat) (bits32 : Bool) : Mem :=
  storeBytes mem (IDT_BASE + idx * 8)
    [off % 256, off / 256 % 256, sel % 256, sel / 256 % 256, 0, if bits32 then 0xEE else 0xE6,
      off / 65536 % 256, off / 16777216 % 256]

/-- `GetBase`: the base field of the descriptor at `p`. -/
def descBase (mem : Mem) (p : Nat) : Nat :=
  readb mem (p + 2) + readb mem (p + 3) * 256 + readb mem (p + 4) * 65536
    + readb mem (p + 7) * 16777216

/-- The 20-bit limit field of the descriptor at `p`. -/
def descLimit (mem : Mem) (p : Nat) : Nat :=
  readb mem p + readb mem (p + 1) * 256 + readb mem (p + 6) % 16 * 65536

/-- `GetLimit`: the limit in bytes, the field counting pages where G is set. -/
def getLimit (mem : Mem) (p : Nat) : Nat :=
  if readb mem (p + 6) / 128 = 1 then descLimit mem p * 4096 + 4095 else descLimit mem p

/-- `Big`: the D/B bit of the descriptor at `p`. -/
def descBig (mem : Mem) (p : Nat) : Bool := readb mem (p + 6) / 64 % 2 = 1

/-- `saved.seg.p`: the present bit of the descriptor at `p`. -/
def descPresent (mem : Mem) (p : Nat) : Bool := readb mem (p + 5) / 128 = 1

/-- `ShimGdtTable::GetDescriptor`: where the descriptor of a selector is, unless the
    selector is past the limit of its table. -/
def getDescriptor (m : Machine) (selector : Nat) : Option Nat :=
  let addr := selector / 8 * 8
  if selector / 4 % 2 = 1 then
    if m.cpu.ldtLimit ≤ addr then none else some (lin (m.cpu.ldtBase + addr))
  else
    if m.cpu.gdtLimit ≤ addr then none else some (lin (m.cpu.gdtBase + addr))

/-- `selector_table_base` -/
def selectorTableBase (sel : Nat) : Nat := if sel / 4 % 2 = 1 then LDT_BASE else GDT_BASE

/-- `selector_is_valid` -/
def selectorIsValid (sel : Nat) : Bool :=
  let idx := sel / 8
  if sel / 4 % 2 = 1 then !(idx = 0 || LDT_COUNT ≤ idx) else !(GDT_LIMIT < idx * 8 + 7)

/-- Where the descriptor of a selector lies in the host's own tables. -/
def descAddr (sel : Nat) : Nat := selectorTableBase sel + sel / 8 * 8

/-- `pm_selector_linear` -/
def pmSelectorLinear (mem : Mem) (sel off : Nat) : Nat := lin (descBase mem (descAddr sel) + off)

/-- `reload_loaded_selector`: refresh every data segment register that holds `sel`. -/
def reloadLoadedSelector (eng : Engine) (m : Machine) (sel : Nat) : Machine :=
  let key := sel / 4 * 4
  if key = 0 then m
  else
    [SegName.ds, .es, .fs, .gs, .ss].foldl
      (fun m s => if m.segVal s / 4 * 4 = key then cpuSetSegGeneral eng m s (m.segVal s) else m) m

/-- The checks of a segment load: a present code or data segment; for SS writable data of exactly
    the current privilege level, for CS code of that level, else readable and no more privileged
    than the selector and the current level. -/
def accessAllowed (s : SegName) (cpl sel access : Nat) : Bool :=
  let dpl := access / 32 % 4
  let code := access / 8 % 2 = 1
  let exact_ := dpl = cpl ∧ sel % 4 = cpl
  access / 128 = 1 && access / 16 % 2 = 1 &&
    match s with
    | .ss => !code && access / 2 % 2 = 1 && exact_
    | .cs => code && exact_
    | _ => (!code || access / 2 % 2 = 1) && cpl ≤ dpl && sel % 4 ≤ dpl

/-- A load in protected mode that passes the checks takes the base and the D/B bit of the
    descriptor. -/
def Engine.Loads (eng : Engine) : Prop :=
  ∀ (m : Machine) (s : SegName) (sel p : Nat), m.cpu.pmode = true → sel / 4 ≠ 0 →
    getDescriptor m sel = some p → accessAllowed s m.cpu.cpl sel (readb m.mem (p + 5)) = true →
    eng.loadSegment m.mem m.cpu s sel =
      (⟨BitVec.ofNat 16 sel, BitVec.ofNat 32 (descBase m.mem p)⟩, descBig m.mem p)

/-- An engine that loads what the descriptor says, without its checks: the base and the D/B bit;
    in real mode the segment times 16. -/
def tableEngine : Engine where
  loadSegment := fun mem _ _ v =>
    (⟨BitVec.ofNat 16 v, BitVec.ofNat 32 (descBase mem (descAddr v))⟩, descBig mem (descAddr v))
  loadSegmentReal := fun _ _ v => (⟨BitVec.ofNat 16 v, BitVec.ofNat 32 (v * 16)⟩, false)

/-- The same engine with the tables the CPU has loaded. -/
def cpuEngine : Engine where
  loadSegment := fun mem cpu _ v =>
    let p := lin ((if v / 4 % 2 = 1 then cpu.ldtBase else cpu.gdtBase) + v / 8 * 8)
    (⟨BitVec.ofNat 16 v, BitVec.ofNat 32 (descBase mem p)⟩, descBig mem p)
  loadSegmentReal := fun _ _ v => (⟨BitVec.ofNat 16 v, BitVec.ofNat 32 (v * 16)⟩, false)

theorem cpuEngine_loads : cpuEngine.Loads := by
  intro m s sel p _ _ hp _
  have hp' : lin ((if sel / 4 % 2 = 1 then m.cpu.ldtBase else m.cpu.gdtBase) + sel / 8 * 8) = p := by
    unfold getDescriptor at hp
    dsimp only at hp
    split_ifs at hp ⊢ <;> exact Option.some.inj hp
  simp only [cpuEngine, hp']

/-! ### The LDT bitmap -/

/-- `ldt_bit` -/
def ldtBit (m : Machine) (idx : Nat) : Bool := m.ldtInUse idx

/-- `ldt_set` -/
def ldtSet (m : Machine) (idx : Nat) (v : Bool) : Machine :=
  { m with ldtInUse := Function.update m.ldtInUse idx v }

/-- The loop of `ldt_find_run` with `n` slots left to look at. -/
def ldtScan (inUse : Nat → Bool) (count : Nat) : Nat → Nat → Nat → Nat → Nat
  | 0, _, _, _ => 0
  | n + 1, i, start, have_ =>
    if inUse i then ldtScan inUse count n (i + 1) 0 0
    else
      let start := if have_ = 0 then i else start
      if have_ + 1 = count then start else ldtScan inUse count n (i + 1) start (have_ + 1)

/-- `ldt_find_run`: the first of `count` free slots in a row, or 0. -/
def ldtFindRun (m : Machine) (count : Nat) : Nat :=
  ldtScan m.ldtInUse count (LDT_COUNT - 1) 1 0 0

/-- TI=1 and the client's privilege level as RPL. -/
def clientSelector (m : Machine) (idx : Nat) : Nat := idx * 8 ||| 4 ||| m.clientCpl

/-- Data access byte with the client's privilege level as DPL: 0x92, or 0xF2 at ring 3. -/
def clientDataAccess (m : Machine) : Nat := 0x92 ||| m.clientCpl * 32

/-! ### Frames -/

theorem writeLdtDescriptor_off (mem : Mem) (idx base limit access : Nat) (bits32 : Bool) :
    AgreesOff (Set.Ico (LDT_BASE + idx * 8) (LDT_BASE + idx * 8 + 8)) mem
      (writeLdtDescriptor mem idx base limit access bits32) :=
  storeBytes_off mem (LDT_BASE + idx * 8) (descriptorBytes base limit access bits32)

theorem writeIdtGate_off (mem : Mem) (idx sel off : Nat) (bits32 : Bool) :
    AgreesOff (Set.Ico (IDT_BASE + idx * 8) (IDT_BASE + idx * 8 + 8)) mem
      (writeIdtGate mem idx sel off bits32) :=
  storeBytes_off mem (IDT_BASE + idx * 8) [_, _, _, _, _, _, _, _]

theorem descBase_lt (mem : Mem) (p : Nat) : descBase mem p < 4294967296 := by
  have h₂ := readb_lt mem (p + 2)
  have h₃ := readb_lt mem (p + 3)
  have h₄ := readb_lt mem (p + 4)
  have h₇ := readb_lt mem (p + 7)
  simp only [descBase]
  omega

theorem sameHost_mirrorSeg (m : Machine) (s : SegName) (r : SegReg × Bool) :
    SameHost m (mirrorSeg m s r) := rfl

theorem sameGlobals_segSet16 (eng : Engine) (m : Machine) (s : SegName) (v : Nat) :
    SameGlobals m (segSet16 eng m s v) := ⟨rfl⟩

theorem sameGlobals_cpuSetSegGeneral (eng : Engine) (m : Machine) (s : SegName) (v : Nat) :
    SameGlobals m (cpuSetSegGeneral eng m s v) := ⟨rfl⟩

theorem sameGlobals_cpuSetCr0 (m : Machine) (v : Nat) : SameGlobals m (cpuSetCr0 m v) := ⟨rfl⟩

theorem sameGlobals_cpuLidt (m : Machine) (limit base : Nat) :
    SameGlobals m (cpuLidt m limit base) := ⟨rfl⟩

theorem sameHost_reloadLoadedSelector (eng : Engine) (m : Machine) (sel : Nat) :
    SameHost m (reloadLoadedSelector eng m sel) := by
  unfold reloadLoadedSelector
  dsimp only
  split_ifs
  · exact SameHost.refl m
  · generalize [SegName.ds, .es, .fs, .gs, .ss] = segs
    induction segs generalizing m with
    | nil => exact SameHost.refl m
    | cons s segs ih =>
      refine SameHost.trans ?_ (ih _)
      dsimp only
      split_ifs
      · exact sameHost_mirrorSeg _ _ _
      · exact SameHost.refl m

/-- A run found by the scan lies inside the table, above the reserved slot. -/
theorem ldtScan_bounds {inUse : Nat → Bool} {count : Nat} :
    ∀ {n i start have_ : Nat}, 1 ≤ i → start + have_ ≤ i → (have_ ≠ 0 → 1 ≤ start) →
      ldtScan inUse count n i start have_ ≠ 0 →
      1 ≤ ldtScan inUse count n i start have_ ∧
        ldtScan inUse count n i start have_ < i + n
  | 0, _, _, _, _, _, _, h => absurd rfl h
  | n + 1, i, start, have_, hi, hs, hh, h => by
    unfold ldtScan at h ⊢
    dsimp only at h ⊢
    by_cases h₁ : inUse i
    · simp only [if_pos h₁] at h ⊢
      have := ldtScan_bounds (n := n) (i := i + 1) (by omega) (by omega) (by simp) h
      omega
    · simp only [if_neg h₁] at h ⊢
      -- the run begins here, or continues the one begun at `start`
      obtain ⟨st, hst, hle, hpos⟩ : ∃ st, (if have_ = 0 then i else start) = st ∧
          st + (have_ + 1) ≤ i + 1 ∧ 1 ≤ st := by
        by_cases h₀ : have_ = 0
        · exact ⟨i, if_pos h₀, by omega, hi⟩
        · exact ⟨start, if_neg h₀, by omega, hh h₀⟩
      rw [hst] at h ⊢
      by_cases h₂ : have_ + 1 = count
      · simp only [if_pos h₂] at h ⊢
        omega
      · simp only [if_neg h₂] at h ⊢
        have := ldtScan_bounds (n := n) (i := i + 1) (by omega) hle (fun _ => hpos) h
        omega

end Dosiz
