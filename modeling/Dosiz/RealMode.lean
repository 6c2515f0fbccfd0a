/-
  Dosiz/RealMode.lean
  ===================
  **Mode switches of the DPMI host.**

  INT 31h AX=0300, 0301 and 0302 leave protected mode, load a register set from the
  client's call structure, run the guest in a nested run loop until a stop callback is
  reached, and go back.  `do_rm_callback` goes the other way for a callback allocated
  with AX=0303.

  Each handler is in two halves, before and after its `DOSBOX_RunMachine`, with the
  locals it keeps across it (`RmSaved`, `RmcbSaved`) as data.  The second half also says
  whether the handler answers `CBRET_STOP`.
-/
import Dosiz.Descriptors

namespace Dosiz

open ByteMemory Machine

/-! ### The real-mode call structure -/

/-- The dwords of the structure, by offset. -/
def rmcsRegs : List (Nat × Reg) :=
  [(0x00, .edi), (0x04, .esi), (0x08, .ebp), (0x10, .ebx), (0x14, .edx), (0x18, .ecx),
    (0x1C, .eax)]

/-- The data segments of the structure, by offset. -/
def rmcsSegs : List (Nat × SegName) := [(0x22, .es), (0x24, .ds), (0x26, .fs), (0x28, .gs)]

/-- The words and dwords of the structure at `rmcs`. -/
def rmcsWord (mem : Mem) (rmcs k : Nat) : Nat := readw mem (lin (rmcs + k))
def rmcsDword (mem : Mem) (rmcs k : Nat) : Nat := readd mem (lin (rmcs + k))

/-- Store the registers of `r` in the structure: the dwords, the flags, the data segments. -/
def writeRmcs (mem : Mem) (rmcs : Nat) (r : Machine) : Mem :=
  let mem := rmcsRegs.foldl (fun mem p => writed mem (lin (rmcs + p.1)) (r.r32 p.2)) mem
  let mem := writew mem (lin (rmcs + 0x20)) r.cpu.flags.toNat
  rmcsSegs.foldl (fun mem p => writew mem (lin (rmcs + p.1)) (r.segVal p.2)) mem

/-- Load the general registers from the structure, ESP excepted. -/
def loadRmcsRegs (m : Machine) (rmcs : Nat) : Machine :=
  rmcsRegs.foldl (fun m p => m.setR32 p.2 (rmcsDword m.mem rmcs p.1)) m

/-- The locals AX=0300, 0301 and 0302 keep across the real-mode run. -/
structure RmSaved where
  rmcs : Nat
  cr0 : Nat
  segs : SegName → Nat
  regs : Reg → BitVec 32
  eip : BitVec 32
  idtBase : Nat
  idtLimit : Nat

/-- `AX=0300`, `AX=0301`, `AX=0302`: how the real-mode procedure is entered. -/
inductive RmService where
  | simulateInt | callFar | callIret
deriving DecidableEq, Repr

/-- Where the three services put the stack when the structure has SS = 0. -/
def RmService.scratch : RmService → Nat × Nat
  | .simulateInt => (0x9000, 0xFFF0)
  | .callFar | .callIret => (0x0050, 0x0F00)

/-- `CPU_SET_CRX(0, saved_cr0 & ~1u)` -/
def clearPe (m : Machine) : Machine := cpuSetCr0 m (m.cpu.cr0 / 2 * 2)

/-- `PhysMake` -/
def physMake (seg off : Nat) : Nat := seg % 65536 * 16 + off % 65536

/-- `real_writew` -/
def realWritew (m : Machine) (seg off v : Nat) : Machine :=
  m.setMem (writew m.mem (physMake seg off) v)

/-- `const … saved_… = …;` -/
def saveRm (m : Machine) : RmSaved where
  rmcs := lin (m.segPhys .es + m.r32 .edi)
  cr0 := m.cpu.cr0
  segs := m.segVal
  regs := m.cpu.regs
  eip := m.cpu.eip
  idtBase := m.cpu.idtBase
  idtLimit := m.cpu.idtLimit

/-- Real mode, with the registers, data segments and stack of the structure at `rmcs`. -/
def loadRmContext (eng : Engine) (svc : RmService) (rmcs : Nat) (m₀ : Machine) : Machine :=
  let word := rmcsWord m₀.mem rmcs
  let m := clearPe (cpuLidt m₀ 0x3FF 0)
  let m := loadRmcsRegs m rmcs
  let m := segSet16 eng m .ds (word 0x24)
  let m := segSet16 eng m .es (word 0x22)
  let m := segSet16 eng m .fs (word 0x26)
  let m := segSet16 eng m .gs (word 0x28)
  if word 0x30 ≠ 0 then (segSet16 eng m .ss (word 0x30)).setR32 .esp (word 0x2E)
  else (segSet16 eng m .ss svc.scratch.1).setR32 .esp svc.scratch.2

/-- The first half of AX=0300, 0301 and 0302, `intnum` being BL. -/
def enterRm (eng : Engine) (svc : RmService) (m : Machine) : Machine :=
  let rmcs := lin (m.segPhys .es + m.r32 .edi)
  let intnum := m.bl
  let ip := rmcsWord m.mem rmcs 0x2A
  let cs := rmcsWord m.mem rmcs 0x2C
  let flagsIn := rmcsWord m.mem rmcs 0x20
  let m := loadRmContext eng svc rmcs m
  match svc with
  | .simulateInt =>
    -- `CALLBACK_RunRealInt`
    segSet16 eng (m.setEip (BitVec.ofNat 32 (CB_SOFFSET + CB_MAX * CB_SIZE + intnum * 6))) .cs CB_SEG
  | .callFar =>
    -- `CALLBACK_RunRealFar`
    let m := m.setR16 .esp (m.sp + 65532)
    let m := realWritew m (m.segVal .ss) m.sp (m.stubs.callStopPtr % 65536)
    let m := realWritew m (m.segVal .ss) (m.sp + 2) (m.stubs.callStopPtr / 65536)
    segSet16 eng (m.setEip (BitVec.ofNat 32 ip)) .cs cs
  | .callIret =>
    let m := m.setR32 .esp (lin (m.r32 .esp + 4294967290) % 65536)
    let m := realWritew m (m.segVal .ss) m.sp (m.stubs.rmStopPtr % 65536)
    let m := realWritew m (m.segVal .ss) (m.sp + 2) (m.stubs.rmStopPtr / 65536)
    let m := realWritew m (m.segVal .ss) (m.sp + 4) flagsIn
    segSet16 eng (m.setEip (BitVec.ofNat 32 ip)) .cs cs

/-- `Segs.val[cs] = sel; Segs.phys[cs] = GetBase()`: base 0 where there is no descriptor. -/
def refreshCs (m : Machine) (sel : Nat) : Machine :=
  let base := (getDescriptor m sel).elim 0 (descBase m.mem)
  m.setSeg .cs ⟨BitVec.ofNat 16 sel, BitVec.ofNat 32 base⟩

/-- `restore_seg`: a selector whose descriptor is no longer present is put back with base 0. -/
def restoreSeg (eng : Engine) (m : Machine) (s : SegName) (sel : Nat) : Machine :=
  if sel ≠ 0 ∧ (getDescriptor m sel).any fun p => !descPresent m.mem p then
    m.setSeg s ⟨BitVec.ofNat 16 sel, 0⟩
  else cpuSetSegGeneral eng m s sel

/-- The protected-mode selectors: AX=0300 spares freed ones, 0301 and 0302 load every one. -/
def reloadSelectors (eng : Engine) (svc : RmService) (segs : SegName → Nat) (m : Machine) : Machine :=
  match svc with
  | .simulateInt =>
    [SegName.ds, .es, .fs, .gs].foldl (fun m s => restoreSeg eng m s (segs s))
      (cpuSetSegGeneral eng m .ss (segs .ss))
  | .callFar | .callIret =>
    [SegName.ds, .ss, .es, .fs, .gs].foldl (fun m s => cpuSetSegGeneral eng m s (segs s)) m

/-- The second half; `true` is `CBRET_STOP`. -/
def leaveRm (eng : Engine) (svc : RmService) (saved : RmSaved) (m : Machine) : Machine × Bool :=
  -- the end of `CALLBACK_RunRealInt` and `CALLBACK_RunRealFar`; AX=0302 runs the loop itself
  let m := if svc = .callIret then m else
    segSet16 eng (m.setEip saved.eip) .cs (saved.segs .cs)
  -- only AX=0300 looks whether a child has exited inside
  if svc = .simulateInt ∧ m.childExitPending then (cpuLidt m saved.idtLimit saved.idtBase, true)
  else
    let r := m
    let m := cpuLidt (cpuSetCr0 m saved.cr0) saved.idtLimit saved.idtBase
    let m := refreshCs (reloadSelectors eng svc saved.segs m) (saved.segs .cs)
    let m := m.setRegs saved.regs
    (setCf (m.setMem (writeRmcs m.mem saved.rmcs r)) false, false)

/-! ### Real-mode callbacks -/

/-- `RM_CALLBACK_COUNT` -/
def RM_CALLBACK_COUNT : Nat := 32

/-- `CPU_LoadCSCache` -/
def cpuLoadCsCache (m : Machine) (sel : Nat) : Machine :=
  if sel / 4 % 16384 = 0 then m
  else
    let p := lin ((if sel / 4 % 2 = 1 then m.cpu.ldtBase else m.cpu.gdtBase) + sel / 8 * 8)
    mirrorSeg m .cs (⟨BitVec.ofNat 16 sel, BitVec.ofNat 32 (descBase m.mem p)⟩, descBig m.mem p)

/-- The locals `do_rm_callback` keeps across the callback's run. -/
structure RmcbSaved where
  rmcs : Nat
  cr0 : Nat
  cs : Nat
  eip : BitVec 32
  ss : Nat
  esp : Nat
  idtBase : Nat
  idtLimit : Nat

def saveRmcb (cb : RmCallback) (m : Machine) : RmcbSaved where
  rmcs := pmSelectorLinear m.mem cb.structSel cb.structOff
  cr0 := m.cpu.cr0
  cs := m.segVal .cs
  eip := m.cpu.eip
  ss := m.segVal .ss
  esp := m.r32 .esp
  idtBase := m.cpu.idtBase
  idtLimit := m.cpu.idtLimit

/-- The structure filled in with the caller's state, CS:IP and SS:SP included. -/
def writeRmcsFull (mem : Mem) (rmcs : Nat) (m : Machine) : Mem :=
  let mem := writeRmcs mem rmcs m
  let mem := writew mem (lin (rmcs + 0x2A)) m.cpu.eip.toNat
  let mem := writew mem (lin (rmcs + 0x2C)) (m.segVal .cs)
  let mem := writew mem (lin (rmcs + 0x2E)) (m.r32 .esp)
  writew mem (lin (rmcs + 0x30)) (m.segVal .ss)

/-- Push the far return to the stop callback, 8 bytes for a 32-bit callback and 4 for a 16-bit
    one. -/
def pushStop (m : Machine) (big : Bool) : Machine :=
  let stopOff := m.stubs.rmStopPtr % 65536
  if big then
    let m := m.setR32 .esp (m.r32 .esp + 4294967288)
    let at_ := fun k => lin (m.segPhys .ss + m.r32 .esp + k)
    m.setMem (writew (writew (writed m.mem (at_ 0) stopOff) (at_ 4) PM_CB_SEL) (at_ 6) 0)
  else
    let m := m.setR32 .esp (m.r32 .esp + 4294967292)
    let at_ := fun k => lin (m.segPhys .ss + m.r32 .esp + k)
    m.setMem (writew (writew m.mem (at_ 0) stopOff) (at_ 2) PM_CB_SEL)

/-- Protected mode with the host's IDT, and the callback's code selector. -/
def callbackMode (cb : RmCallback) (m : Machine) : Machine :=
  cpuLoadCsCache (cpuSetCr0 (cpuLidt m IDT_LIMIT IDT_BASE) (m.cpu.cr0 / 2 * 2 + 1)) cb.pmCs

/-- The callback's code size, data segments and stack. -/
def callbackSegs (eng : Engine) (cb : RmCallback) (big : Bool) (m : Machine) : Machine :=
  let m := cpuSetSegGeneral eng (m.setCodeBig big) .ds cb.structSel
  let m := cpuSetSegGeneral eng m .es cb.structSel
  let m := cpuSetSegGeneral eng m .ss PM_CB_STACK
  (m.setR32 .edi cb.structOff).setR32 .esp (PM_CB_STACK_SIZE - 16)

/-- The first half of `do_rm_callback` for an allocated slot. -/
def enterRmcb (eng : Engine) (cb : RmCallback) (m : Machine) : Machine :=
  let rmcs := pmSelectorLinear m.mem cb.structSel cb.structOff
  let m := callbackMode cb (m.setMem (writeRmcsFull m.mem rmcs m))
  let big := (getDescriptor m cb.pmCs).any (descBig m.mem)
  (pushStop (callbackSegs eng cb big m) big).setEip (BitVec.ofNat 32 cb.pmEip)

/-- The registers and data segments of the structure, the high half of the flags kept. -/
def reloadRmcs (eng : Engine) (rmcs : Nat) (m : Machine) : Machine :=
  let m := loadRmcsRegs m rmcs
  let m := m.setFlags (BitVec.ofNat 32 (rmcsWord m.mem rmcs 0x20 + m.cpu.flags.toNat / 65536 * 65536))
  rmcsSegs.foldl (fun m p => segSet16 eng m p.2 (rmcsWord m.mem rmcs p.1)) m

/-- The second half. -/
def leaveRmcb (eng : Engine) (saved : RmcbSaved) (m : Machine) : Machine × Bool :=
  let m := cpuLidt (cpuSetCr0 m saved.cr0) saved.idtLimit saved.idtBase
  let m := reloadRmcs eng saved.rmcs m
  let m := (segSet16 eng m .ss saved.ss).setR32 .esp saved.esp
  ((segSet16 eng m .cs saved.cs).setEip saved.eip, false)

/-! ### What a mode switch leaves alone -/

theorem sameGlobals_loadRmcsRegs (m : Machine) (rmcs : Nat) :
    SameGlobals m (loadRmcsRegs m rmcs) :=
  sameGlobals_foldl (fun _ _ => sameGlobals_setR32 _ _ _) m rmcsRegs

theorem sameGlobals_realWritew (m : Machine) (seg off v : Nat) :
    SameGlobals m (realWritew m seg off v) := sameGlobals_setMem m _

theorem sameGlobals_loadRmContext (eng : Engine) (svc : RmService) (rmcs : Nat) (m : Machine) :
    SameGlobals m (loadRmContext eng svc rmcs m) := by
  have hload : SameGlobals m (loadRmcsRegs (clearPe (cpuLidt m 0x3FF 0)) rmcs) :=
    ((sameGlobals_cpuLidt m _ _).trans (sameGlobals_cpuSetCr0 _ _)).trans
      (sameGlobals_loadRmcsRegs _ rmcs)
  have hsegs := (((hload.trans (sameGlobals_segSet16 eng _ .ds (rmcsWord m.mem rmcs 0x24))).trans
    (sameGlobals_segSet16 eng _ .es (rmcsWord m.mem rmcs 0x22))).trans
    (sameGlobals_segSet16 eng _ .fs (rmcsWord m.mem rmcs 0x26))).trans
    (sameGlobals_segSet16 eng _ .gs (rmcsWord m.mem rmcs 0x28))
  unfold loadRmContext
  dsimp only
  split
  · exact (hsegs.trans (sameGlobals_segSet16 eng _ _ _)).trans (sameGlobals_setR32 _ _ _)
  · exact (hsegs.trans (sameGlobals_segSet16 eng _ _ _)).trans (sameGlobals_setR32 _ _ _)

theorem sameGlobals_enterRm (eng : Engine) (svc : RmService) (m : Machine) :
    SameGlobals m (enterRm eng svc m) := by
  have hload := sameGlobals_loadRmContext eng svc (lin (m.segPhys .es + m.r32 .edi)) m
  unfold enterRm
  cases svc with
  | simulateInt => exact (hload.trans (sameGlobals_setEip _ _)).trans (sameGlobals_segSet16 eng _ _ _)
  | callFar =>
    exact ((((hload.trans (sameGlobals_setR16 _ _ _)).trans (sameGlobals_realWritew _ _ _ _)).trans
      (sameGlobals_realWritew _ _ _ _)).trans (sameGlobals_setEip _ _)).trans
      (sameGlobals_segSet16 eng _ _ _)
  | callIret =>
    exact (((((hload.trans (sameGlobals_setR32 _ _ _)).trans (sameGlobals_realWritew _ _ _ _)).trans
      (sameGlobals_realWritew _ _ _ _)).trans (sameGlobals_realWritew _ _ _ _)).trans
      (sameGlobals_setEip _ _)).trans (sameGlobals_segSet16 eng _ _ _)

theorem sameGlobals_restoreSeg (eng : Engine) (m : Machine) (s : SegName) (sel : Nat) :
    SameGlobals m (restoreSeg eng m s sel) := by
  unfold restoreSeg
  split
  · exact sameGlobals_setSeg _ _ _
  · exact sameGlobals_cpuSetSegGeneral _ _ _ _

theorem sameGlobals_reloadSelectors (eng : Engine) (svc : RmService) (segs : SegName → Nat)
    (m : Machine) : SameGlobals m (reloadSelectors eng svc segs m) := by
  unfold reloadSelectors
  cases svc with
  | simulateInt =>
    exact (sameGlobals_cpuSetSegGeneral _ _ _ _).trans
      (sameGlobals_foldl (fun _ _ => sameGlobals_restoreSeg _ _ _ _) _ _)
  | callFar => exact sameGlobals_foldl (fun _ _ => sameGlobals_cpuSetSegGeneral _ _ _ _) m _
  | callIret => exact sameGlobals_foldl (fun _ _ => sameGlobals_cpuSetSegGeneral _ _ _ _) m _

theorem sameGlobals_refreshCs (m : Machine) (sel : Nat) : SameGlobals m (refreshCs m sel) :=
  sameGlobals_setSeg _ _ _

theorem sameGlobals_leaveRm (eng : Engine) (svc : RmService) (saved : RmSaved) (m : Machine) :
    SameGlobals m (leaveRm eng svc saved m).1 := by
  have hend : SameGlobals m (if svc = .callIret then m else
      segSet16 eng (m.setEip saved.eip) .cs (saved.segs .cs)) := by
    split
    · exact SameGlobals.refl m
    · exact (sameGlobals_setEip m _).trans (sameGlobals_segSet16 eng _ _ _)
  unfold leaveRm
  dsimp only
  generalize (if svc = .callIret then m else _) = r at hend ⊢
  split
  · exact hend.trans (sameGlobals_cpuLidt _ _ _)
  · refine hend.trans ?_
    have hmode := (sameGlobals_cpuSetCr0 r saved.cr0).trans
      (sameGlobals_cpuLidt _ saved.idtLimit saved.idtBase)
    have hsel := (hmode.trans (sameGlobals_reloadSelectors eng svc saved.segs _)).trans
      (sameGlobals_refreshCs _ (saved.segs .cs))
    exact ((hsel.trans (sameGlobals_setRegs _ saved.regs)).trans (sameGlobals_setMem _ _)).trans
      (sameGlobals_setCf _ false)

theorem sameGlobals_pushStop (m : Machine) (big : Bool) : SameGlobals m (pushStop m big) := by
  unfold pushStop
  cases big
  · exact (sameGlobals_setR32 m .esp _).trans (sameGlobals_setMem _ _)
  · exact (sameGlobals_setR32 m .esp _).trans (sameGlobals_setMem _ _)

theorem sameGlobals_cpuLoadCsCache (m : Machine) (sel : Nat) :
    SameGlobals m (cpuLoadCsCache m sel) := by
  unfold cpuLoadCsCache
  split
  · exact SameGlobals.refl m
  · exact (sameHost_mirrorSeg _ _ _).sameGlobals

theorem sameGlobals_callbackMode (cb : RmCallback) (m : Machine) :
    SameGlobals m (callbackMode cb m) :=
  ((sameGlobals_cpuLidt m _ _).trans (sameGlobals_cpuSetCr0 _ _)).trans
    (sameGlobals_cpuLoadCsCache _ _)

theorem sameGlobals_callbackSegs (eng : Engine) (cb : RmCallback) (big : Bool) (m : Machine) :
    SameGlobals m (callbackSegs eng cb big m) :=
  (((((sameGlobals_setCodeBig m big).trans (sameGlobals_cpuSetSegGeneral eng _ _ _)).trans
    (sameGlobals_cpuSetSegGeneral eng _ _ _)).trans (sameGlobals_cpuSetSegGeneral eng _ _ _)).trans
    (sameGlobals_setR32 _ _ _)).trans (sameGlobals_setR32 _ _ _)

theorem sameGlobals_enterRmcb (eng : Engine) (cb : RmCallback) (m : Machine) :
    SameGlobals m (enterRmcb eng cb m) := by
  unfold enterRmcb
  dsimp only
  exact ((((sameGlobals_setMem m _).trans (sameGlobals_callbackMode cb _)).trans
    (sameGlobals_callbackSegs eng cb _ _)).trans (sameGlobals_pushStop _ _)).trans
    (sameGlobals_setEip _ _)

theorem sameGlobals_reloadRmcs (eng : Engine) (rmcs : Nat) (m : Machine) :
    SameGlobals m (reloadRmcs eng rmcs m) := by
  unfold reloadRmcs
  dsimp only
  refine SameGlobals.trans ?_ (sameGlobals_foldl (fun _ _ => sameGlobals_segSet16 _ _ _ _) _ _)
  exact (sameGlobals_loadRmcsRegs m rmcs).trans (sameGlobals_setFlags _ _)

theorem sameGlobals_leaveRmcb (eng : Engine) (saved : RmcbSaved) (m : Machine) :
    SameGlobals m (leaveRmcb eng saved m).1 :=
  (((((((sameGlobals_cpuSetCr0 m _).trans (sameGlobals_cpuLidt _ _ _)).trans
    (sameGlobals_reloadRmcs eng saved.rmcs _)).trans (sameGlobals_segSet16 eng _ _ _)).trans
    (sameGlobals_setR32 _ _ _)).trans (sameGlobals_segSet16 eng _ _ _)).trans
    (sameGlobals_setEip _ _))

end Dosiz
