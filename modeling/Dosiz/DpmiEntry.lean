/-
  Dosiz/DpmiEntry.lean
  ====================
  **Entering protected mode** (`pm_setup_gdt_and_idt`, `dosiz_dpmi_entry` of
  `bridge.cc`).

  A real-mode client far-calls the entry point.  The host writes its GDT, TSS and IDT,
  clears the LDT with the allocation state that belongs to it, and continues the client
  in protected mode: a 32-bit client at ring 3 through an inter-privilege IRETD, a
  16-bit one (or with the ring-0 switch set any client) at ring 0 through the far return
  of the stub.
-/
import Dosiz.Gates
import Dosiz.Int31

namespace Dosiz

open ByteMemory Machine

/-! ### The tables -/

/-- The GDT entries: index, base, limit, access byte, D bit. -/
def gdtEntries (bits32 : Bool) (cs ds ss es : Nat) : List (Nat × Nat × Nat × Nat × Bool) :=
  [(0, 0, 0, 0, false), (1, cs * 16, 0xFFFF, 0x9A, bits32), (2, ds * 16, 0xFFFF, 0x92, false),
    (3, ss * 16, 0xFFFF, 0x92, false), (4, es * 16, 0xFFFF, 0x92, false),
    (5, 0xF0000, 0xFFFF, 0x9A, false), (6, LDT_BASE, LDT_BYTES - 1, 0x82, false),
    (7, PM_SHIM_BASE, PM_SHIM_TOTAL - 1, 0x9A, false),
    (8, PM_CB_STACK_BASE, PM_CB_STACK_SIZE - 1, 0x92, true),
    (9, TSS_BASE, TSS_SIZE - 1, 0x89, false), (10, cs * 16, 0xFFFF, 0xFA, bits32),
    (11, ds * 16, 0xFFFF, 0xF2, false), (12, ss * 16, 0xFFFF, 0xF2, false),
    (13, es * 16, 0xFFFF, 0xF2, false), (14, 0xF0000, 0xFFFF, 0xFA, false),
    (15, PM_EXC_STACK_BASE, PM_CB_STACK_SIZE - 1, 0xF2, false)]

def writeGdt (mem : Mem) (bits32 : Bool) (cs ds ss es : Nat) : Mem :=
  (gdtEntries bits32 cs ds ss es).foldl
    (fun mem d => writeGdtDescriptor mem d.1 d.2.1 d.2.2.1 d.2.2.2.1 d.2.2.2.2) mem

/-- The TSS: zeroes, then ESP0 and SS0. -/
def writeTss (mem : Mem) : Mem :=
  let mem := fill mem TSS_BASE TSS_SIZE 0
  writew (writed mem (TSS_BASE + 4) PM_CB_STACK_SIZE) (TSS_BASE + 8) PM_CB_STACK

/-- Where in the first bytes of a stub the native call is. -/
def scanNative (mem : Mem) (stub : Nat) : Option Nat :=
  (List.range 5).find? fun i => readb mem (stub + i) = 0xFE ∧ readb mem (stub + i + 1) = 0x38

/-- Reflect vector `v` of the IVT: a callback of dosiz gets a gate, a 32-bit one through a slot of
    the shim segment. -/
def reflectVector (bits32 : Bool) (mem : Mem) (v : Nat) : Mem :=
  if v = 0x21 ∨ v = 0x31 then mem
  else
    let off := readw mem (v * 4)
    let seg := readw mem (v * 4 + 2)
    if seg ≠ CB_SEG then mem
    else if !bits32 then writeIdtGate mem v PM_CB_SEL off false
    else
      match scanNative mem (seg * 16 + off) with
      | none => mem
      | some scan =>
        let cb := readw mem (seg * 16 + off + scan + 2)
        let slotOff := v * PM_SHIM_SLOT_BYTES
        let mem := storeBytes mem (PM_SHIM_BASE + slotOff) (Gates.shimSlot v cb)
        writeIdtGate mem v PM_SHIM_SEL slotOff true

/-- The gates of the services with entry points of their own: vector, selector, offset, width. -/
def serviceGates (s : Stubs) (bits32 : Bool) : List (Nat × Nat × Nat × Bool) :=
  [(0x21, PM_CB_SEL, if bits32 then s.int21Cb32 else s.int21Cb, bits32),
    (0x31, PM_CB_SEL, if bits32 then s.int31Cb32 else s.int31Cb, bits32),
    (0x80, PM_CB_SEL, s.int80Cb32, true), (0x1A, PM_CB_SEL, s.int1aCb32, true),
    (0x60, PM_SHIM_SEL, s.int60Cb32, true)]

/-- The IDT: empty gates, the reflected vectors, the service gates that are installed. -/
def writeIdt (s : Stubs) (bits32 : Bool) (mem : Mem) : Mem :=
  let mem := (List.range 256).foldl (fun mem i => writeIdtGate mem i 0 0 bits32) mem
  let mem := (List.range 256).foldl (reflectVector bits32) mem
  (serviceGates s bits32).foldl
    (fun mem g => if g.2.2.1 ≠ 0 then writeIdtGate mem g.1 g.2.1 g.2.2.1 g.2.2.2 else mem) mem

/-- `pm_setup_gdt_and_idt` -/
def pmSetupGdtAndIdt (m : Machine) (bits32 : Bool) (cs ds ss es : Nat) : Machine :=
  let m := m.setMem (writeTss (writeGdt m.mem bits32 cs ds ss es))
  let m := cpuLgdt m GDT_LIMIT GDT_BASE
  let m := m.setMem (writeIdt m.stubs bits32 m.mem)
  cpuLidt m IDT_LIMIT IDT_BASE

/-! ### The CPU side -/

/-- `CPU_LLDT` -/
def cpuLldt (m : Machine) (sel : Nat) : Machine :=
  let p := lin (m.cpu.gdtBase + sel / 8 * 8)
  { m with cpu := { m.cpu with ldtBase := descBase m.mem p, ldtLimit := getLimit m.mem p } }

def setCpl (m : Machine) (cpl : Nat) : Machine := { m with cpu := { m.cpu with cpl := cpl } }

/-- `CPU_IRET(true, …)`: to an outer ring the frame has ESP and SS too. -/
def cpuIret32 (eng : Engine) (m : Machine) : Machine :=
  let pop := fun k => readd m.mem (lin (m.segPhys .ss + stackOffset m + k))
  let ncs := pop 4 % 65536
  let newcpl := if m.cpu.pmode then ncs % 4 else m.cpu.cpl
  let flags := BitVec.ofNat 32 (pop 8)
  let r :=
    if m.cpu.pmode ∧ m.cpu.cpl < newcpl then
      let r := cpuSetSegGeneral eng (setCpl m newcpl) .cs ncs
      (cpuSetSegGeneral eng r .ss (pop 16 % 65536)).setR32 .esp (pop 12)
    else (cpuSetSegGeneral eng m .cs ncs).setR32 .esp (stackOffset m + 12)
  (r.setEip (BitVec.ofNat 32 (pop 0))).setFlags flags

/-! ### The entry -/

/-- An LDT with no descriptor, its bitmap with slot 0 reserved, no segment conversions. -/
def resetLdt (m : Machine) : Machine :=
  { m with
    mem := fill m.mem LDT_BASE LDT_BYTES 0
    ldtInUse := fun i => i = 0
    seg2descCache := fun _ => 0 }

/-- The catch-all exception gates. -/
def catchAllGates (m : Machine) (bits32 : Bool) : Machine :=
  let excCb := if bits32 then m.stubs.leExcCb32 else m.stubs.leExcCb16
  if excCb = 0 then m
  else m.setMem ((List.range 16).foldl (fun mem v => writeIdtGate mem v PM_CB_SEL excCb bits32) m.mem)

/-- The starter set of a ring-3 client: slot, base, access byte, D bit. -/
def starterSet (cs ds ss psp env : Nat) : List (Nat × Nat × Nat × Bool) :=
  [(1, cs * 16, 0xFA, false), (2, ds * 16, 0xF2, true), (3, ss * 16, 0xF2, true),
    (4, psp * 16, 0xF2, false), (5, env * 16, 0xF2, false)]

def installStarterSet (m : Machine) (set : List (Nat × Nat × Nat × Bool)) : Machine :=
  set.foldl (fun m d =>
    ldtSet (m.setMem (writeLdtDescriptor m.mem d.1 d.2.1 0xFFFF d.2.2.1 d.2.2.2)) d.1 true) m

def setClientCpl (m : Machine) (cpl : Nat) : Machine := { m with clientCpl := cpl }

/-- The ring-3 path of `dosiz_dpmi_entry`. -/
def enterRing3 (eng : Engine) (m : Machine) (clientCs clientIp : Nat) : Machine :=
  let ds := m.segVal .ds
  let ss := m.segVal .ss
  let m := cpuLldt (cpuSetCr0 m 1) PM_LDT_SEL
  let m := resetLdt (setClientCpl m 3)
  let psp := if m.currentPspSeg ≠ 0 then m.currentPspSeg else PSP_SEG
  let env := if m.currentEnvSeg ≠ 0 then m.currentEnvSeg else ENV_SEG
  let m := installStarterSet m (starterSet clientCs ds ss psp env)
  let m := m.setMem (writew m.mem (psp * 16 + 0x2C) 0x2F)
  let m := (cpuSetSegGeneral eng m .ss PM_CB_STACK).setR32 .esp (PM_CB_STACK_SIZE - 32)
  let m := cpuSetSegGeneral eng m .ds 0x17
  let m := cpuSetSegGeneral eng m .es 0x27
  let at_ := fun k => lin (m.segPhys .ss + m.r32 .esp + k)
  -- `reg_sp` is read after `reg_esp` was set above
  let clientSp := m.sp
  let mem := writed (writed (writed m.mem (at_ 0) clientIp) (at_ 4) 0x0F) (at_ 8) 0x3002
  let mem := writed (writed mem (at_ 12) clientSp) (at_ 16) 0x1F
  (cpuIret32 eng (m.setMem mem)).setR16 .eax 0

/-- The ring-0 path: the far return of the stub goes to the protected-mode code selector. -/
def enterRing0 (eng : Engine) (m : Machine) : Machine :=
  let stackedCs := m.segVal .ss * 16 + m.sp + 2
  let m := m.setMem (writeb (writeb m.mem stackedCs PM_CS_SEL) (stackedCs + 1) 0)
  let m := cpuLldt (cpuSetCr0 m 1) PM_LDT_SEL
  let m := cpuSetSegGeneral eng m .ds PM_DS_SEL
  let m := cpuSetSegGeneral eng m .ss PM_SS_SEL
  let m := cpuSetSegGeneral eng m .es PM_ES_SEL
  setCf (m.setR16 .eax 0) false

/-- `dosiz_dpmi_entry` -/
def dosizDpmiEntry (eng : Engine) (m : Machine) : Machine :=
  let clientCs := readw m.mem (m.segVal .ss * 16 + m.sp + 2)
  let bits32 : Bool := m.ax = 1
  let m := pmSetupGdtAndIdt m bits32 clientCs (m.segVal .ds) (m.segVal .ss) (m.segVal .es)
  let m := catchAllGates (resetLdt m) bits32
  if bits32 ∧ !m.dpmiRing0 then
    enterRing3 eng m clientCs (readw m.mem (m.segVal .ss * 16 + m.sp))
  else enterRing0 eng m

/-! ### What an entry leaves alone -/

/-- All globals but the LDT bitmap, the segment conversions and the client's ring are the same. -/
structure EntryFrame (m m' : Machine) : Prop where
  eq : m' = { m with
    mem := m'.mem
    cpu := m'.cpu
    ldtInUse := m'.ldtInUse
    seg2descCache := m'.seg2descCache
    clientCpl := m'.clientCpl }

theorem EntryFrame.trans {m m' m'' : Machine} (h₁ : EntryFrame m m') (h₂ : EntryFrame m' m'') :
    EntryFrame m m'' := by
  refine ⟨?_⟩
  rw [h₂.eq, h₁.eq]

theorem Machine.SameGlobals.entryFrame {m m' : Machine} (h : SameGlobals m m') : EntryFrame m m' := by
  refine ⟨?_⟩
  rw [h.eq]

theorem EntryFrame.processStack {m m' : Machine} (h : EntryFrame m m') :
    m'.processStack = m.processStack := by
  rw [h.eq]

theorem entryFrame_resetLdt (m : Machine) : EntryFrame m (resetLdt m) := ⟨rfl⟩

theorem entryFrame_setClientCpl (m : Machine) (cpl : Nat) : EntryFrame m (setClientCpl m cpl) :=
  ⟨rfl⟩

theorem entryFrame_installStarterSet (m : Machine) (set : List (Nat × Nat × Nat × Bool)) :
    EntryFrame m (installStarterSet m set) := by
  have hone : ∀ (r : Machine) (mem : Mem) (i : Nat), EntryFrame r (ldtSet (r.setMem mem) i true) :=
    fun _ _ _ => ⟨rfl⟩
  induction set generalizing m with
  | nil => exact ⟨rfl⟩
  | cons d set ih => exact (hone m _ d.1).trans (ih _)

theorem sameGlobals_pmSetupGdtAndIdt (m : Machine) (bits32 : Bool) (cs ds ss es : Nat) :
    SameGlobals m (pmSetupGdtAndIdt m bits32 cs ds ss es) := by
  have htables : ∀ gdt idt, SameGlobals m
      (cpuLidt ((cpuLgdt (m.setMem gdt) GDT_LIMIT GDT_BASE).setMem idt) IDT_LIMIT IDT_BASE) :=
    fun _ _ => ⟨rfl⟩
  exact htables _ _

theorem sameGlobals_cpuLldt (m : Machine) (sel : Nat) : SameGlobals m (cpuLldt m sel) := by
  have hldt : ∀ base limit, SameGlobals m
      { m with cpu := { m.cpu with ldtBase := base, ldtLimit := limit } } := fun _ _ => ⟨rfl⟩
  exact hldt _ _

theorem sameGlobals_catchAllGates (m : Machine) (bits32 : Bool) :
    SameGlobals m (catchAllGates m bits32) := by
  unfold catchAllGates
  dsimp only
  generalize (if bits32 = true then m.stubs.leExcCb32 else m.stubs.leExcCb16) = excCb
  split
  · exact SameGlobals.refl m
  · exact sameGlobals_setMem m _

theorem sameGlobals_cpuIret32 (eng : Engine) (m : Machine) : SameGlobals m (cpuIret32 eng m) := by
  have hcpl : ∀ cpl, SameGlobals m (setCpl m cpl) := fun _ => ⟨rfl⟩
  unfold cpuIret32
  dsimp only
  refine SameGlobals.trans ?_ (sameGlobals_setFlags _ _)
  refine SameGlobals.trans ?_ (sameGlobals_setEip _ _)
  generalize (if m.cpu.pmode = true then _ else m.cpu.cpl) = newcpl
  split
  · refine SameGlobals.trans ?_ (sameGlobals_setR32 _ _ _)
    refine SameGlobals.trans ?_ (sameGlobals_cpuSetSegGeneral eng _ _ _)
    exact (hcpl _).trans (sameGlobals_cpuSetSegGeneral eng _ _ _)
  · exact (sameGlobals_cpuSetSegGeneral eng _ _ _).trans (sameGlobals_setR32 _ _ _)

/-- The five stages of the ring-3 path: the LDT, the starter set, the PSP's environment selector,
    the stack and data segments, the return frame. -/
theorem entryFrame_enterRing3 (eng : Engine) (m : Machine) (cs ip : Nat) :
    EntryFrame m (enterRing3 eng m cs ip) := by
  unfold enterRing3
  refine EntryFrame.trans ?_ (sameGlobals_setR16 _ _ _).entryFrame
  refine EntryFrame.trans ?_ (sameGlobals_cpuIret32 eng _).entryFrame
  refine EntryFrame.trans ?_ (sameGlobals_setMem _ _).entryFrame
  refine EntryFrame.trans ?_ (sameGlobals_cpuSetSegGeneral eng _ _ _).entryFrame
  refine EntryFrame.trans ?_ (sameGlobals_cpuSetSegGeneral eng _ _ _).entryFrame
  refine EntryFrame.trans ?_ (sameGlobals_setR32 _ _ _).entryFrame
  refine EntryFrame.trans ?_ (sameGlobals_cpuSetSegGeneral eng _ _ _).entryFrame
  refine EntryFrame.trans ?_ (sameGlobals_setMem _ _).entryFrame
  refine EntryFrame.trans ?_ (entryFrame_installStarterSet _ _)
  refine EntryFrame.trans ?_ (entryFrame_resetLdt _)
  refine EntryFrame.trans ?_ (entryFrame_setClientCpl _ 3)
  exact ((sameGlobals_cpuSetCr0 m 1).trans (sameGlobals_cpuLldt _ _)).entryFrame

theorem sameGlobals_enterRing0 (eng : Engine) (m : Machine) : SameGlobals m (enterRing0 eng m) := by
  unfold enterRing0
  refine SameGlobals.trans ?_ (sameGlobals_setCf _ _)
  refine SameGlobals.trans ?_ (sameGlobals_setR16 _ _ _)
  refine SameGlobals.trans ?_ (sameGlobals_cpuSetSegGeneral eng _ _ _)
  refine SameGlobals.trans ?_ (sameGlobals_cpuSetSegGeneral eng _ _ _)
  refine SameGlobals.trans ?_ (sameGlobals_cpuSetSegGeneral eng _ _ _)
  refine SameGlobals.trans ?_ (sameGlobals_cpuLldt _ _)
  exact (sameGlobals_setMem m _).trans (sameGlobals_cpuSetCr0 _ _)

theorem entryFrame_enterRing0 (eng : Engine) (m : Machine) : EntryFrame m (enterRing0 eng m) :=
  (sameGlobals_enterRing0 eng m).entryFrame

theorem entryFrame_dosizDpmiEntry (eng : Engine) (m : Machine) :
    EntryFrame m (dosizDpmiEntry eng m) := by
  have htables : ∀ bits32 cs, EntryFrame m (catchAllGates (resetLdt (pmSetupGdtAndIdt m bits32 cs
      (m.segVal .ds) (m.segVal .ss) (m.segVal .es))) bits32) := fun bits32 cs =>
    ((sameGlobals_pmSetupGdtAndIdt m bits32 cs _ _ _).entryFrame.trans (entryFrame_resetLdt _)).trans
      (sameGlobals_catchAllGates _ _).entryFrame
  unfold dosizDpmiEntry
  dsimp only
  split
  · exact (htables _ _).trans (entryFrame_enterRing3 eng _ _ _)
  · exact (htables _ _).trans (entryFrame_enterRing0 eng _)

end Dosiz
