/-
  Dosiz/Exec.lean
  ===============
  **Running a child program** (INT 21h AH=4B AL=0, AH=4C and AH=4D of `bridge.cc`).

  AH=4B allocates and fills a block for the child and one for its environment, keeps what
  it wants back of the parent, and runs the child in a nested run loop until AH=4C stops
  it.  The handler is in two halves, before and after its `DOSBOX_RunMachine`, with the
  locals it keeps across it (`ExecSaved`) as data.
-/
import Dosiz.RealMode
import Dosiz.Loader

namespace Dosiz

open ByteMemory Machine Mcb

/-! ### The child's blocks -/

def ENV_BYTES : Nat := 0x800
def CHILD_MAX_PARAS : Nat := 0x4000

/-- `dos_arg_addr` -/
def dosArgAddr (m : Machine) (s : SegName) (r : Reg) : Nat :=
  lin (m.segPhys s + if m.cpu.pmode && m.intGateBits32 then m.r32 r else m.r16 r)

/-- `read_dos_string_lin` -/
def readDosString (mem : Mem) : Nat → Nat → List Nat
  | 0, _ => []
  | n + 1, a => if readb mem (lin a) = 0 then [] else readb mem (lin a) :: readDosString mem n (a + 1)

/-- Copy `n` bytes upwards, one at a time. -/
def copyUp (mem : Mem) (dst src : Nat) : Nat → Mem
  | 0 => mem
  | n + 1 =>
    let mem := copyUp mem dst src n
    writeb mem (dst + n) (readb mem (src + n))

/-- The environment segment of the caller: that of the PSP in DS if there is one. -/
def parentEnvSeg (m : Machine) : Nat :=
  let psp := m.segVal .ds * 16
  if readb m.mem psp = 0xCD then
    if readw m.mem (psp + 0x2C) = 0 then ENV_SEG else readw m.mem (psp + 0x2C)
  else ENV_SEG

/-- The index after the double NUL that ends the variables, with `n` bytes left to look at. -/
def envEnd (mem : Mem) (base : Nat) : Nat → Nat → Nat
  | 0, i => i
  | n + 1, i =>
    if i + 1 < ENV_BYTES then
      if readb mem (base + i) = 0 ∧ readb mem (base + i + 1) = 0 then i + 2
      else envEnd mem base n (i + 1)
    else i

/-- `std::toupper`, with slashes turned. -/
def upperSlash (c : Nat) : Nat :=
  if c = 0x2F then 0x5C else if 0x61 ≤ c ∧ c ≤ 0x7A then c - 32 else c

/-- The child's own path as the child sees it: upper case, backslashes, with a drive. -/
def argv0 (dosPath : List Nat) : List Nat :=
  let p := dosPath.map upperSlash
  if p.length < 2 ∨ p[1]? ≠ some 0x3A then
    [0x43, 0x3A, 0x5C] ++ (if p.head? = some 0x5C then p.tail else p)
  else p

/-- Put `argv0` after the variables: the count, as much of the path as fits, a NUL. -/
def putArgv0 (mem : Mem) (base : Nat) (path : List Nat) : Mem :=
  let i := envEnd mem base ENV_BYTES 0
  let fits := i + 2 ≤ ENV_BYTES
  let mem := if fits then writeb (writeb mem (base + i) 1) (base + i + 1) 0 else mem
  let i := if fits then i + 2 else i
  let shown := path.take (ENV_BYTES - 1 - i)
  let mem := storeBytes mem (base + i) shown
  if i + shown.length < ENV_BYTES then writeb mem (base + i + shown.length) 0 else mem

/-- The fixed bytes of the child's PSP, by offset. -/
def pspBytes (psp env : Nat) : List (Nat × Nat) :=
  [(0x00, 0xCD), (0x01, 0x20), (0x02, 0x00), (0x03, 0xA0), (0x18, 0x00), (0x19, 0x01), (0x1A, 0x02),
    (0x1B, 0x03), (0x1C, 0x04), (0x2C, env % 256), (0x2D, env / 256), (0x32, 20), (0x33, 0),
    (0x34, 0x18), (0x35, 0x00), (0x36, psp % 256), (0x37, psp / 256)]

/-- The child's PSP, with the command tail of the caller's parameter block. -/
def buildChildPsp (m : Machine) (childPsp childEnv : Nat) : Mem :=
  let psp := childPsp * 16
  let mem := fill (fill m.mem psp 256 0) (psp + 0x18) 20 0xFF
  let mem := (pspBytes childPsp childEnv).foldl (fun mem p => writeb mem (psp + p.1) p.2) mem
  let pb := lin (m.segPhys .es + m.bx)
  let tail := readw mem (lin (pb + 4)) * 16 + readw mem (lin (pb + 2))
  let len := readb mem tail
  let mem := writeb mem (psp + 0x80) len
  let mem := copyUp mem (psp + 0x81) (tail + 1) (min len 127)
  writeb mem (psp + 0x81 + len) 0x0D

/-- How the child's program block came out: the machine answered with a DOS error, or the block
    with the program in it. -/
inductive ChildBlock where
  | failed (m : Machine) (code : Nat)
  | loaded (m : Machine) (psp : Nat) (regs : InitialRegs)

/-- Allocate the child's block and clear it: the segment, 0 where there is no room. -/
def childSpace (m : Machine) : Option (Machine × Nat) :=
  let m := mcbReady m
  match mcbFindFree m.mem 0xFFFF with
  | none => none
  | some (_, largest) =>
    let reserve := ENV_BYTES / 16 + 0x20
    if largest ≤ reserve then some (m, 0)
    else
      let want := min (largest - reserve) CHILD_MAX_PARAS
      match mcbAllocate m want with
      | none => none
      | some (m, childPsp, _) =>
        if childPsp = 0 then some (m, 0)
        else some (m.setMem (fill m.mem (childPsp * 16) (want * 16) 0), childPsp)

/-- The child's block with the program in it. -/
def loadChild (host : Host) (path : List Nat) (m : Machine) : Option ChildBlock :=
  match childSpace m with
  | none => none
  | some (m, childPsp) =>
    if childPsp = 0 then some (.failed m 8)
    else
      match loadProgramAt host path m childPsp with
      | none => none
      | some (m, none) => some (.failed (mcbFree m childPsp).1 2)
      | some (m, some regs) => some (.loaded m childPsp regs)

/-- The machine a child's block comes out in. -/
def ChildBlock.machine : ChildBlock → Machine
  | .failed m _ => m
  | .loaded m _ _ => m

theorem imageFrame_childSpace {m : Machine} {r : Machine × Nat} (h : childSpace m = some r) :
    ImageFrame m r.1 := by
  have hready := imageFrame_mcbReady m
  unfold childSpace at h
  dsimp only at h
  split at h
  · cases h
  · split_ifs at h
    · cases h
      exact hready
    · split at h
      · cases h
      · rename_i halloc
        have hr := hready.trans (imageFrame_mcbAllocate halloc)
        split_ifs at h
        · cases h
          exact hr
        · cases h
          exact hr.trans (imageFrame_setMem _ _)

theorem loadChild_frame {host : Host} {path : List Nat} {m : Machine} {b : ChildBlock}
    (h : loadChild host path m = some b) : LoaderFrame m b.machine ∧ ∀ m' psp r,
      b = .loaded m' psp r → ∃ m₁, LoaderFrame m m₁ ∧ loadProgramAt host path m₁ psp = some (m', some r) := by
  unfold loadChild at h
  split at h
  · cases h
  · rename_i r psp hspace
    have hr := (imageFrame_childSpace hspace).loader
    split_ifs at h
    · cases h
      exact ⟨hr, fun _ _ _ h => by cases h⟩
    · split at h
      · cases h
      · rename_i r' hload
        cases h
        exact ⟨(hr.trans (loaderFrame_loadProgramAt hload)).trans (imageFrame_mcbFree _ _).loader,
          fun _ _ _ h => by cases h⟩
      · rename_i r' regs hload
        cases h
        refine ⟨hr.trans (loaderFrame_loadProgramAt hload), fun m' psp' r h => ?_⟩
        cases h
        exact ⟨_, hr, hload⟩

/-! ### Starting the child -/

/-- The locals AH=4B keeps across the child's run. -/
structure ExecSaved where
  pspSeg : Nat
  envSeg : Nat
  ldt : Nat → UInt8
  ldtInUse : Nat → Bool
  pmExc : Nat → ExcHandler
  cbStack : Nat → UInt8
  idtBase : Nat
  idtLimit : Nat
  stackBig : Bool
  cr0 : Nat

def saveExec (m : Machine) : ExecSaved where
  pspSeg := m.currentPspSeg
  envSeg := m.currentEnvSeg
  ldt := bytesAt m.mem LDT_BASE
  ldtInUse := m.ldtInUse
  pmExc := m.pmExc
  cbStack := bytesAt m.mem PM_CB_STACK_BASE
  idtBase := m.cpu.idtBase
  idtLimit := m.cpu.idtLimit
  stackBig := m.cpu.stackBig
  cr0 := m.cpu.cr0

/-- `ProcessState ps`: the parent's registers and the child's two blocks. -/
def processState (m : Machine) (childPsp childEnv : Nat) : ProcessState where
  segs := fun s => (m.cpu.segs s).val
  regs := m.cpu.regs
  eip := m.cpu.eip
  eflags := m.cpu.flags
  childDataSeg := childPsp
  childEnvSeg := childEnv
  childExitCode := 0

/-- `s_process_stack.push_back(ps)`, and the child's PSP and environment published. -/
def pushProcess (m : Machine) (childPsp childEnv : Nat) : Machine :=
  { m with
    processStack := processState m childPsp childEnv :: m.processStack
    currentPspSeg := childPsp
    currentEnvSeg := childEnv }

/-- Publish the child, and put the CPU at its entry in real mode. -/
def startChild (eng : Engine) (m : Machine) (childPsp childEnv : Nat) (r : InitialRegs) : Machine :=
  let cr0 := m.cpu.cr0
  let m := pushProcess m childPsp childEnv
  let m := segSet16 eng m .cs r.cs
  let m := segSet16 eng m .ds childPsp
  let m := segSet16 eng m .es childPsp
  let m := segSet16 eng m .ss r.ss
  let m := ((m.setEip (BitVec.ofNat 32 r.ip)).setR32 .esp r.sp).setR32 .eax r.ax
  if cr0 % 2 = 1 then cpuSetCr0 m (cr0 / 2 * 2) else m

/-- The first half of AH=4B AL=0: the answer with an error, or the machine at the child's entry
    with the locals kept.  `none` is a walk of the memory chain that never
    ends, or an access past the end of the program file. -/
def int21_4B (eng : Engine) (host : Host) (m : Machine) : Option (Machine × Option ExecSaved) :=
  let fail := fun (m : Machine) code => some (setCf (m.setR16 .eax code) true, none)
  let path := readDosString m.mem 260 (dosArgAddr m .ds .edx)
  let hostPath := host.resolvePath path
  if (host.contents hostPath).isNone then fail m 2
  else
    match loadChild host hostPath m with
    | none => none
    | some (.failed m code) => fail m code
    | some (.loaded m childPsp regs) =>
      match mcbAllocate m (ENV_BYTES / 16) with
      | none => none
      | some (m, childEnv, _) =>
        if childEnv = 0 then fail (mcbFree m childPsp).1 8
        else
          let mem := copyUp m.mem (childEnv * 16) (parentEnvSeg m * 16) ENV_BYTES
          let m := m.setMem (putArgv0 mem (childEnv * 16) (argv0 path))
          let m := m.setMem (buildChildPsp m childPsp childEnv)
          some (startChild eng m childPsp childEnv regs, some (saveExec m))

/-! ### The end of the child -/

/-- AH=4C inside a child; `CBRET_STOP` follows. -/
def int21_4C (m : Machine) : Machine :=
  match m.processStack with
  | [] => m
  | ps :: rest =>
    { m with processStack := { ps with childExitCode := m.r8l .eax } :: rest, childExitPending := true }

/-- AH=4D -/
def int21_4D (m : Machine) : Machine := setCf (m.setR16 .eax m.lastChildExit) false

/-- The parent's tables and globals put back. -/
def restoreTables (saved : ExecSaved) (m : Machine) : Machine :=
  let mem := blit m.mem LDT_BASE LDT_BYTES saved.ldt
  { m with
    mem := blit mem PM_CB_STACK_BASE PM_CB_STACK_SIZE saved.cbStack
    ldtInUse := saved.ldtInUse
    pmExc := saved.pmExc
    childExitPending := false
    currentPspSeg := saved.pspSeg
    currentEnvSeg := saved.envSeg }

/-- 16-bit code at ring 0, and the interrupt table and stack width of a real-mode parent. -/
def restoreRealMode (saved : ExecSaved) (m : Machine) : Machine :=
  { m with cpu := { m.cpu with
      codeBig := false
      cpl := 0
      idtBase := saved.idtBase
      idtLimit := saved.idtLimit
      stackBig := saved.stackBig } }

/-- `s_process_stack.pop_back()` -/
def popProcess (m : Machine) : Machine := { m with processStack := m.processStack.tail }

def setLastChildExit (m : Machine) (code : Nat) : Machine := { m with lastChildExit := code }

/-- The parent's segment registers: from the descriptors in protected mode; in real mode with the
    interrupt table and the widths the parent had. -/
def restoreSegments (eng : Engine) (saved : ExecSaved) (ps : ProcessState) (m : Machine) : Machine :=
  if saved.cr0 % 2 = 1 then
    let m := [SegName.ds, .ss, .es, .fs, .gs].foldl
      (fun m s => cpuSetSegGeneral eng m s (ps.segs s).toNat) m
    refreshCs m (ps.segs .cs).toNat
  else
    restoreRealMode saved ([SegName.cs, .ds, .ss, .es, .fs, .gs].foldl
      (fun m s => segSet16 eng m s (ps.segs s).toNat) m)

/-- The second half of AH=4B AL=0; it answers `CBRET_NONE`. -/
def execEnd (eng : Engine) (saved : ExecSaved) (m : Machine) : Machine × Bool :=
  match m.processStack with
  -- `back()` of an empty stack: AH=4B has pushed one
  | [] => (m, false)
  | ps :: _ =>
    let m := restoreTables saved (cpuSetCr0 m saved.cr0)
    let m := restoreSegments eng saved ps (popProcess m)
    let m := ((m.setEip ps.eip).setRegs ps.regs).setFlags ps.eflags
    let m := (mcbFree m ps.childDataSeg).1
    let m := if ps.childEnvSeg ≠ 0 then (mcbFree m ps.childEnvSeg).1 else m
    let m := setLastChildExit m ps.childExitCode
    (setCf (m.setR8l .eax ps.childExitCode) false, false)

/-! ### What the two halves leave alone -/

theorem sameGlobals_restoreSegments (eng : Engine) (saved : ExecSaved) (ps : ProcessState)
    (m : Machine) : SameGlobals m (restoreSegments eng saved ps m) := by
  have hreal : ∀ r : Machine, SameGlobals r (restoreRealMode saved r) := fun _ => ⟨rfl⟩
  unfold restoreSegments
  split
  · refine SameGlobals.trans ?_ (sameGlobals_refreshCs _ _)
    exact sameGlobals_foldl (fun _ _ => sameGlobals_cpuSetSegGeneral eng _ _ _) m _
  · refine SameGlobals.trans ?_ (hreal _)
    exact sameGlobals_foldl (fun _ _ => sameGlobals_segSet16 eng _ _ _) m _

/-- Entering the child changes one global: the process stack, with the current PSP and
    environment. -/
theorem sameGlobals_startChild (eng : Engine) (m : Machine) (psp env : Nat) (r : InitialRegs) :
    SameGlobals (pushProcess m psp env) (startChild eng m psp env r) := by
  have hregs : SameGlobals (pushProcess m psp env) ((((segSet16 eng (segSet16 eng (segSet16 eng
      (segSet16 eng (pushProcess m psp env) .cs r.cs) .ds psp) .es psp) .ss r.ss).setEip
      (BitVec.ofNat 32 r.ip)).setR32 .esp r.sp).setR32 .eax r.ax) :=
    ((((((sameGlobals_segSet16 eng _ _ _).trans (sameGlobals_segSet16 eng _ _ _)).trans
      (sameGlobals_segSet16 eng _ _ _)).trans (sameGlobals_segSet16 eng _ _ _)).trans
      (sameGlobals_setEip _ _)).trans (sameGlobals_setR32 _ _ _)).trans (sameGlobals_setR32 _ _ _)
  unfold startChild
  dsimp only
  split
  · exact hregs.trans (sameGlobals_cpuSetCr0 _ _)
  · exact hregs

theorem sameGlobals_mcbFree {m : Machine} (s : Nat) : SameGlobals m (mcbFree m s).1 := by
  unfold mcbFree
  split
  · exact ⟨rfl⟩
  · exact SameGlobals.refl m

/-- The tables and globals AH=4B puts back, before the registers. -/
def parentTables (saved : ExecSaved) (m : Machine) : Machine :=
  popProcess (restoreTables saved (cpuSetCr0 m saved.cr0))

/-- After the child, the globals are those of `parentTables`, with the child's code as the last
    exit code; AL is the child's code. -/
theorem execEnd_spec (eng : Engine) (saved : ExecSaved) {m : Machine} {ps : ProcessState}
    {rest : List ProcessState} (h : m.processStack = ps :: rest) :
    SameGlobals (setLastChildExit (parentTables saved m) ps.childExitCode) (execEnd eng saved m).1 ∧
      (execEnd eng saved m).1.r8l .eax = ps.childExitCode % 256 ∧ (execEnd eng saved m).2 = false := by
  have hset : ∀ (r r' : Machine) code, SameGlobals r r' →
      SameGlobals (setLastChildExit r code) (setLastChildExit r' code) := by
    intro r r' code hr
    refine ⟨?_⟩
    rw [hr.eq]
    rfl
  have hal : ∀ (r : Machine) v, (r.setR8l .eax v).r8l .eax = v % 256 := by
    intro r v
    have := r.r32_lt .eax
    simp only [r8l, setR8l, r32_setR32]
    omega
  unfold execEnd
  rw [h]
  dsimp only
  refine ⟨?_, hal _ _, rfl⟩
  refine SameGlobals.trans (hset _ _ _ ?_) (SameGlobals.trans (sameGlobals_setR32 _ _ _) (sameGlobals_setCf _ _))
  have hregs := (((sameGlobals_restoreSegments eng saved ps (parentTables saved m)).trans
    (sameGlobals_setEip _ ps.eip)).trans (sameGlobals_setRegs _ ps.regs)).trans
    (sameGlobals_setFlags _ ps.eflags)
  split
  · exact (hregs.trans (sameGlobals_mcbFree _)).trans (sameGlobals_mcbFree _)
  · exact hregs.trans (sameGlobals_mcbFree _)

/-- The first half fails with the process globals as they were, or enters the child from a machine
    with those process globals. -/
theorem int21_4B_cases {eng : Engine} {host : Host} {m m' : Machine} {r : Option ExecSaved}
    (h : int21_4B eng host m = some (m', r)) :
    (r = none ∧ ServiceFrame m m') ∨ ∃ m₁ psp env regs, ServiceFrame m m₁ ∧ r = some (saveExec m₁) ∧
      m' = startChild eng m₁ psp env regs := by
  unfold int21_4B at h
  dsimp only at h
  have hfail : ∀ r code, ServiceFrame m r → ServiceFrame m (setCf (r.setR16 .eax code) true) :=
    fun r code hr => hr.trans rfl
  split at h
  · cases h
    exact Or.inl ⟨rfl, hfail m 2 (ServiceFrame.refl m)⟩
  · split at h
    · cases h
    · rename_i r code hload
      cases h
      exact Or.inl ⟨rfl, hfail _ _ (loadChild_frame hload).1.serviceFrame⟩
    · rename_i r psp regs hload
      have hr := (loadChild_frame hload).1.serviceFrame
      split at h
      · cases h
      · rename_i r' env largest halloc
        have hr' := hr.trans (serviceFrame_mcbAllocate halloc)
        split at h
        · cases h
          exact Or.inl ⟨rfl, hfail _ _ (hr'.trans (serviceFrame_mcbFree _ _))⟩
        · cases h
          refine Or.inr ⟨_, psp, env, regs, ?_, rfl, rfl⟩
          exact (hr'.trans (imageFrame_setMem _ _).loader.serviceFrame).trans
            (imageFrame_setMem _ _).loader.serviceFrame

end Dosiz
