/-
  Dosiz/Machine.lean
  ==================
  **The state the DOS host works on.**

  `bridge.cc` reads and writes three things: guest memory (`mem_readb` …
  `mem_writed`), the register interface of `dosbox_compat.h` (`cpu_regs`, `Segs`,
  `cpu`), and its own file-scope globals (`s_…`).  `Machine` is the product of the
  three.  Registers are 32-bit vectors and segment registers carry their cached base,
  as in the interface; every accessor below yields a natural number, so that the
  address arithmetic of the services can be written out with its wrap-around.

  The flag helper `set_cf` is here too, because nearly every service ends in it.
-/
import Mathlib.Data.List.AList
import Mathlib.Logic.Function.Basic
import Dosiz.ByteMemory
import Dosiz.Extents

namespace Dosiz

open ByteMemory

/-! ### Fixed addresses and sizes -/

def PSP_SEG : Nat := 0x100
def ENV_SEG : Nat := 0x50
def CB_SEG : Nat := 0xF000
def CB_SOFFSET : Nat := 0x1000
def CB_SIZE : Nat := 32
def CB_MAX : Nat := 250

def GDT_BASE : Nat := 0x100000
def GDT_LIMIT : Nat := 0x7F
def IDT_BASE : Nat := 0x102000
def IDT_LIMIT : Nat := 0x7FF
def LDT_BASE : Nat := 0x104000
def LDT_BYTES : Nat := 2048
def LDT_COUNT : Nat := 256
def PM_SHIM_BASE : Nat := 0x106000
def PM_SHIM_SLOT_BYTES : Nat := 16
def PM_SHIM_TOTAL : Nat := 256 * PM_SHIM_SLOT_BYTES
def PM_CB_STACK_BASE : Nat := 0x108000
def PM_CB_STACK_SIZE : Nat := 0x1000
def TSS_BASE : Nat := 0x109000
def TSS_SIZE : Nat := 104
def PM_EXC_STACK_BASE : Nat := 0x10A000

def PM_CS_SEL : Nat := 0x08
def PM_DS_SEL : Nat := 0x10
def PM_SS_SEL : Nat := 0x18
def PM_ES_SEL : Nat := 0x20
def PM_CB_SEL : Nat := 0x28
def PM_LDT_SEL : Nat := 0x30
def PM_SHIM_SEL : Nat := 0x38
def PM_CB_STACK : Nat := 0x40
def PM_TSS_SEL : Nat := 0x48
def PM_CB3_SEL : Nat := 0x73
def PM_EXC_STACK_SEL : Nat := 0x7B

/-- Linear addresses are `uint32_t`. -/
def lin (a : Nat) : Nat := a % 4294967296

theorem lin_of_lt {a : Nat} (h : a < 4294967296) : lin a = a := Nat.mod_eq_of_lt h

/-- Addresses less than 4 GB apart do not wrap onto each other. -/
theorem lin_add_inj {a i j : Nat} (hi : i < 4294967296) (hj : j < 4294967296)
    (h : lin (a + i) = lin (a + j)) : i = j := by
  simp only [lin] at h
  omega

/-! ### Registers -/

inductive Reg where
  | eax | ecx | edx | ebx | esp | ebp | esi | edi
deriving DecidableEq, Repr

inductive SegName where
  | es | cs | ss | ds | fs | gs
deriving DecidableEq, Repr

/-- A segment register: the selector (or real-mode segment) and the cached base. -/
structure SegReg where
  val : BitVec 16
  phys : BitVec 32
deriving DecidableEq, Repr

/-- The register interface (`cpu_regs`, `Segs`, `cpu`) with the descriptor-table
    registers it proxies. -/
structure Cpu where
  regs : Reg → BitVec 32
  eip : BitVec 32
  flags : BitVec 32
  segs : SegName → SegReg
  cr0 : Nat
  pmode : Bool
  cpl : Nat
  stackBig : Bool
  codeBig : Bool
  gdtBase : Nat
  gdtLimit : Nat
  idtBase : Nat
  idtLimit : Nat
  ldtBase : Nat
  ldtLimit : Nat

/-! ### Host globals -/

/-- `PmBlock`: an allocated block of the arena above 1 MB. -/
abbrev PmBlock := Extents.Extent

/-- `ExcHandler`: a client's protected-mode exception handler. -/
structure ExcHandler where
  sel : Nat
  off : Nat
deriving DecidableEq, Repr

/-- `RmCallback`: one slot of the AX=0303 table. -/
structure RmCallback where
  allocated : Bool
  rmAddr : Nat
  pmCs : Nat
  pmEip : Nat
  structSel : Nat
  structOff : Nat
deriving DecidableEq, Repr

/-- Offsets (in `CB_SEG`) and far pointers of the callback stubs `dosiz_startup` installs. -/
structure Stubs where
  int21Cb : Nat
  int21Cb32 : Nat
  int31Cb : Nat
  int31Cb32 : Nat
  leExcCb16 : Nat
  leExcCb32 : Nat
  int80Cb32 : Nat
  int1aCb32 : Nat
  int60Cb32 : Nat
  pmExcCb32 : Nat → Nat
  pmExcRet : Nat
  noopRetfPtr : Nat
  rmStopPtr : Nat
  callStopPtr : Nat

/-- `ProcessState`: what AH=4B keeps of the parent while its child runs. -/
structure ProcessState where
  segs : SegName → BitVec 16
  regs : Reg → BitVec 32
  eip : BitVec 32
  eflags : BitVec 32
  childDataSeg : Nat
  childEnvSeg : Nat
  childExitCode : Nat

/-- `EmsHandle`: the pool page of each logical page, and the page map AH=47 saved. -/
structure EmsHandle where
  pages : List Nat
  mapSaved : Bool
  savedH : Nat → Nat
  savedP : Nat → Nat

/-- The expanded-memory globals (`s_ems_…`): the pool's bytes, the pages in use, the handles,
    and for each slot of the page frame the handle, logical page and pool page it has
    (0xFFFF = none). -/
structure Ems where
  pool : Mem
  poolUsed : Nat → Bool
  handles : AList fun _ : Nat => EmsHandle
  nextHandle : Nat
  slotH : Nat → Nat
  slotP : Nat → Nat
  slotPool : Nat → Nat

/-- The machine: guest memory, the register interface, and the host's globals.  `handles` is
    `s_handles`, DOS handle to host descriptor; `fds` is the process's own descriptor table,
    descriptor to open file. -/
structure Machine where
  mem : Mem
  cpu : Cpu
  mcbInitialised : Bool
  pmBusy : List PmBlock
  pmInitialised : Bool
  pmEnd : Nat
  totalPages : Nat
  intGateBits32 : Bool
  ldtInUse : Nat → Bool
  seg2descCache : Nat → Nat
  clientCpl : Nat
  pmExc : Nat → ExcHandler
  faultCount : Nat
  lastFaultEip : Nat
  lastFaultCs : Nat
  rmCallbacks : List RmCallback
  virtualIf : Bool
  currentPspSeg : Nat
  currentEnvSeg : Nat
  processStack : List ProcessState
  childExitPending : Bool
  lastChildExit : Nat
  handles : Nat → Option Nat
  fds : Nat → Option Nat
  ems : Ems
  stubs : Stubs
  dpmiRing0 : Bool
  extenderBound : Bool

namespace Machine

/-! ### Register access -/

def r32 (m : Machine) (r : Reg) : Nat := (m.cpu.regs r).toNat
def r16 (m : Machine) (r : Reg) : Nat := m.r32 r % 65536
def r8l (m : Machine) (r : Reg) : Nat := m.r32 r % 256
def r8h (m : Machine) (r : Reg) : Nat := m.r32 r / 256 % 256

def segVal (m : Machine) (s : SegName) : Nat := (m.cpu.segs s).val.toNat
def segPhys (m : Machine) (s : SegName) : Nat := (m.cpu.segs s).phys.toNat

abbrev ax (m : Machine) : Nat := m.r16 .eax
abbrev bx (m : Machine) : Nat := m.r16 .ebx
abbrev cx (m : Machine) : Nat := m.r16 .ecx
abbrev dx (m : Machine) : Nat := m.r16 .edx
abbrev si (m : Machine) : Nat := m.r16 .esi
abbrev di (m : Machine) : Nat := m.r16 .edi
abbrev sp (m : Machine) : Nat := m.r16 .esp
abbrev bl (m : Machine) : Nat := m.r8l .ebx

def setR32 (m : Machine) (r : Reg) (v : Nat) : Machine :=
  { m with cpu := { m.cpu with regs := Function.update m.cpu.regs r (BitVec.ofNat 32 v) } }

/-- Write the low word of a register; the high word stays. -/
def setR16 (m : Machine) (r : Reg) (v : Nat) : Machine :=
  m.setR32 r (m.r32 r / 65536 * 65536 + v % 65536)

def setR8l (m : Machine) (r : Reg) (v : Nat) : Machine :=
  m.setR32 r (m.r32 r / 256 * 256 + v % 256)

def setR8h (m : Machine) (r : Reg) (v : Nat) : Machine :=
  m.setR32 r (m.r32 r / 65536 * 65536 + v % 256 * 256 + m.r32 r % 256)

/-! Whole components. -/

def setMem (m : Machine) (mem : Mem) : Machine := { m with mem := mem }

def setEip (m : Machine) (v : BitVec 32) : Machine := { m with cpu := { m.cpu with eip := v } }

def setFlags (m : Machine) (v : BitVec 32) : Machine := { m with cpu := { m.cpu with flags := v } }

def setRegs (m : Machine) (regs : Reg → BitVec 32) : Machine :=
  { m with cpu := { m.cpu with regs := regs } }

def setSeg (m : Machine) (s : SegName) (r : SegReg) : Machine :=
  { m with cpu := { m.cpu with segs := Function.update m.cpu.segs s r } }

def setCodeBig (m : Machine) (big : Bool) : Machine :=
  { m with cpu := { m.cpu with codeBig := big } }

/-- Several word registers at once, in the order the source assigns them. -/
def setR16s (m : Machine) (rs : List (Reg × Nat)) : Machine :=
  rs.foldl (fun m p => m.setR16 p.1 p.2) m

theorem r32_lt (m : Machine) (r : Reg) : m.r32 r < 4294967296 := (m.cpu.regs r).isLt

theorem r16_lt (m : Machine) (r : Reg) : m.r16 r < 65536 := Nat.mod_lt _ (by decide)

theorem segVal_lt (m : Machine) (s : SegName) : m.segVal s < 65536 := (m.cpu.segs s).val.isLt

@[simp] theorem setR32_mem (m : Machine) (r : Reg) (v : Nat) : (m.setR32 r v).mem = m.mem := rfl

/-! ### What a register write can change

`SameHost m m'` says that two machines differ in the CPU at most. -/

/-- Memory and every host global are the same; only the register interface may differ. -/
def SameHost (m m' : Machine) : Prop := m' = { m with cpu := m'.cpu }

theorem SameHost.refl (m : Machine) : SameHost m m := rfl

theorem SameHost.trans {m m' m'' : Machine} (h₁ : SameHost m m') (h₂ : SameHost m' m'') :
    SameHost m m'' := by
  unfold SameHost at *
  rw [h₂, h₁]

theorem sameHost_setR16 (m : Machine) (r : Reg) (v : Nat) : SameHost m (m.setR16 r v) := rfl

theorem sameHost_setR16s (m : Machine) (rs : List (Reg × Nat)) : SameHost m (m.setR16s rs) := by
  induction rs generalizing m with
  | nil => exact SameHost.refl m
  | cons p rs ih => exact (sameHost_setR16 m p.1 p.2).trans (ih _)

/-- Every host global is the same; memory and the register interface may differ. -/
structure SameGlobals (m m' : Machine) : Prop where
  eq : m' = { m with mem := m'.mem, cpu := m'.cpu }

theorem SameGlobals.refl (m : Machine) : SameGlobals m m := ⟨rfl⟩

theorem SameGlobals.trans {m m' m'' : Machine} (h₁ : SameGlobals m m') (h₂ : SameGlobals m' m'') :
    SameGlobals m m'' := by
  refine ⟨?_⟩
  rw [h₂.eq, h₁.eq]

theorem SameHost.sameGlobals {m m' : Machine} (h : SameHost m m') : SameGlobals m m' := by
  unfold SameHost at h
  refine ⟨?_⟩
  rw [h]

theorem SameGlobals.processStack {m m' : Machine} (h : SameGlobals m m') :
    m'.processStack = m.processStack := by
  rw [h.eq]

theorem sameGlobals_foldl {α : Type*} {f : Machine → α → Machine}
    (h : ∀ m a, SameGlobals m (f m a)) (m : Machine) (as : List α) : SameGlobals m (as.foldl f m) := by
  induction as generalizing m with
  | nil => exact SameGlobals.refl m
  | cons a as ih => exact (h m a).trans (ih _)

theorem sameGlobals_setMem (m : Machine) (mem : Mem) : SameGlobals m (m.setMem mem) := ⟨rfl⟩

theorem sameGlobals_setR32 (m : Machine) (r : Reg) (v : Nat) : SameGlobals m (m.setR32 r v) := ⟨rfl⟩

theorem sameGlobals_setR16 (m : Machine) (r : Reg) (v : Nat) : SameGlobals m (m.setR16 r v) := ⟨rfl⟩

theorem sameGlobals_setEip (m : Machine) (v : BitVec 32) : SameGlobals m (m.setEip v) := ⟨rfl⟩

theorem sameGlobals_setFlags (m : Machine) (v : BitVec 32) : SameGlobals m (m.setFlags v) := ⟨rfl⟩

theorem sameGlobals_setRegs (m : Machine) (regs : Reg → BitVec 32) :
    SameGlobals m (m.setRegs regs) := ⟨rfl⟩

theorem sameGlobals_setCodeBig (m : Machine) (big : Bool) : SameGlobals m (m.setCodeBig big) := ⟨rfl⟩

theorem sameGlobals_setSeg (m : Machine) (s : SegName) (r : SegReg) :
    SameGlobals m (m.setSeg s r) := ⟨rfl⟩

@[simp] theorem r32_setR32 (m : Machine) (r : Reg) (v : Nat) :
    (m.setR32 r v).r32 r = v % 4294967296 := by
  simp [r32, setR32]

theorem r32_setR32_of_ne (m : Machine) {r r' : Reg} (v : Nat) (h : r' ≠ r) :
    (m.setR32 r v).r32 r' = m.r32 r' := by
  simp [r32, setR32, Function.update_of_ne h]

@[simp] theorem r16_setR16 (m : Machine) (r : Reg) (v : Nat) :
    (m.setR16 r v).r16 r = v % 65536 := by
  have h := m.r32_lt r
  simp only [r16, setR16, r32_setR32]
  omega

theorem r16_setR16_of_ne (m : Machine) {r r' : Reg} (v : Nat) (h : r' ≠ r) :
    (m.setR16 r v).r16 r' = m.r16 r' := by
  simp only [r16, setR16, r32_setR32_of_ne m _ h]

@[simp] theorem r8h_setR8h (m : Machine) (r : Reg) (v : Nat) :
    (m.setR8h r v).r8h r = v % 256 := by
  have h := m.r32_lt r
  simp only [r8h, setR8h, r32_setR32]
  omega

theorem r8l_setR8l (m : Machine) (r : Reg) (v : Nat) : (m.setR8l r v).r8l r = v % 256 := by
  have hlt := m.r32_lt r
  simp only [r8l, setR8l, r32_setR32]
  omega

theorem r8l_setR8h (m : Machine) (r : Reg) (v : Nat) : (m.setR8h r v).r8l r = m.r8l r := by
  have hlt := m.r32_lt r
  simp only [r8l, setR8h, r32_setR32]
  omega

theorem r8h_setR16_of_ne (m : Machine) {r r' : Reg} (v : Nat) (h : r' ≠ r) :
    (m.setR16 r v).r8h r' = m.r8h r' := by
  simp only [r8h, setR16, r32_setR32_of_ne m _ h]

theorem r16_setR8h_of_ne (m : Machine) {r r' : Reg} (v : Nat) (h : r' ≠ r) :
    (m.setR8h r v).r16 r' = m.r16 r' := by
  simp only [r16, setR8h, r32_setR32_of_ne m _ h]

end Machine

/-! ### The stack pointer -/

open Machine

/-- The offset the stack pointer stands for. -/
def stackOffset (m : Machine) : Nat := if m.cpu.stackBig then m.r32 .esp else m.sp

/-- `reg_esp = v` on a 32-bit stack, `reg_sp = v` on a 16-bit one. -/
def setStack (m : Machine) (v : Nat) : Machine :=
  if m.cpu.stackBig then m.setR32 .esp v else m.setR16 .esp v

/-- An offset on the current stack. -/
def wrapStack (m : Machine) (v : Nat) : Nat := if m.cpu.stackBig then lin v else v % 65536

theorem stackOffset_setStack (m : Machine) (v : Nat) :
    stackOffset (setStack m v) = wrapStack m v := by
  unfold stackOffset setStack wrapStack
  cases hb : m.cpu.stackBig
  · simp only [Bool.false_eq_true, if_false]
    have : (m.setR16 .esp v).cpu.stackBig = false := hb
    simp only [this, Bool.false_eq_true, if_false, sp, r16_setR16]
  · simp only [if_true]
    have : (m.setR32 .esp v).cpu.stackBig = true := hb
    simp only [this, if_true, r32_setR32, lin]

theorem setStack_frame (m : Machine) (v : Nat) :
    (setStack m v).mem = m.mem ∧ (setStack m v).cpu.segs = m.cpu.segs ∧
      (setStack m v).cpu.stackBig = m.cpu.stackBig := by
  unfold setStack
  split <;> exact ⟨rfl, rfl, rfl⟩

theorem segPhys_setStack (m : Machine) (v : Nat) (s : SegName) :
    (setStack m v).segPhys s = m.segPhys s := by
  simp only [segPhys, (setStack_frame m v).2.1]

theorem r32_setStack (m : Machine) (v : Nat) : (setStack m v).r32 .esp =
    if m.cpu.stackBig then lin v else m.r32 .esp / 65536 * 65536 + v % 65536 := by
  have h := m.r32_lt .esp
  unfold setStack
  split
  · exact r32_setR32 m .esp v
  · rw [setR16, r32_setR32]
    omega

/-! ### The carry flag of the interrupted caller -/

/-- `PhysPt` of the FLAGS word `set_cf` edits: the stack top plus 4, or plus 8 when the
    service was entered through a bits32 wrapper in protected mode. -/
def flagsAddr (m : Machine) : Nat :=
  lin (m.segPhys .ss + (if m.cpu.stackBig then m.r32 .esp else m.r16 .esp)
    + (if m.cpu.pmode && m.intGateBits32 then 8 else 4))

/-- Set or clear the bits of `mask` in a 16-bit word. -/
def withFlag (mask : BitVec 16) (val : Bool) (f : BitVec 16) : BitVec 16 :=
  if val then f ||| mask else f &&& ~~~mask

/-- Read the word at `a`, set or clear `mask` in it, write it back. -/
def editFlag (mem : Mem) (a : Nat) (mask : BitVec 16) (val : Bool) : Mem :=
  writew mem a (withFlag mask val (BitVec.ofNat 16 (readw mem a))).toNat

/-- `set_cf` -/
def setCf (m : Machine) (val : Bool) : Machine :=
  { m with mem := editFlag m.mem (flagsAddr m) 0x0001 val }

/-- What a service answers with: the machine and the carry flag it passes to the one
    `set_cf` it ends in.  `none` is a service that never returns. -/
abbrev Reply := Option (Machine × Bool)

/-- `set_cf(…); return CBRET_NONE;` -/
def finish (r : Reply) : Option Machine := r.map fun p => setCf p.1 p.2

/-- `return_error` of INT 21h and the error exits of INT 31h: the code in AX, CF set. -/
def failWith (m : Machine) (code : Nat) : Machine × Bool := (m.setR16 .eax code, true)

theorem sameGlobals_setCf (m : Machine) (val : Bool) : SameGlobals m (setCf m val) := ⟨rfl⟩

theorem editFlag_off (mem : Mem) (a : Nat) (mask : BitVec 16) (val : Bool) :
    AgreesOff (Set.Ico a (a + 2)) mem (editFlag mem a mask val) :=
  writew_off mem a _

/-! ### A machine to start from -/

/-- A CPU with every register, base and flag 0, in real mode. -/
def zeroCpu : Cpu where
  regs := fun _ => 0
  eip := 0
  flags := 0
  segs := fun _ => ⟨0, 0⟩
  cr0 := 0
  pmode := false
  cpl := 0
  stackBig := false
  codeBig := false
  gdtBase := 0
  gdtLimit := 0
  idtBase := 0
  idtLimit := 0x3FF
  ldtBase := 0
  ldtLimit := 0

/-- The machine before the first program runs, on zeroed memory of 16 MB: no arena is set up,
    no table is allocated, no process is nested. -/
def bootMachine : Machine where
  mem := fun _ => 0
  cpu := zeroCpu
  mcbInitialised := false
  pmBusy := []
  pmInitialised := false
  pmEnd := 0
  totalPages := 4096
  intGateBits32 := false
  ldtInUse := fun _ => false
  seg2descCache := fun _ => 0
  clientCpl := 0
  pmExc := fun _ => ⟨0, 0⟩
  faultCount := 0
  lastFaultEip := 0
  lastFaultCs := 0
  rmCallbacks := List.replicate 32 ⟨false, 0, 0, 0, 0, 0⟩
  virtualIf := true
  currentPspSeg := 0
  currentEnvSeg := 0
  processStack := []
  childExitPending := false
  lastChildExit := 0
  handles := fun _ => none
  fds := fun fd => if fd ≤ 2 then some fd else none
  ems := ⟨fun _ => 0, fun _ => false, ∅, 1, fun _ => 0xFFFF, fun _ => 0xFFFF, fun _ => 0xFFFF⟩
  stubs := ⟨0, 0, 0, 0, 0, 0, 0, 0, 0, fun _ => 0, 0, 0, 0, 0⟩
  dpmiRing0 := false
  extenderBound := false

end Dosiz
