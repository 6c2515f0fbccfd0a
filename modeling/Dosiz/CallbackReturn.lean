/-
  Dosiz/CallbackReturn.lean
  =========================
  **A real-mode callback and its return** (`do_rm_callback` of `bridge.cc`).

  Real-mode code far-calls the stub of an AX=0303 callback.  The host fills the client's structure,
  goes to protected mode and runs the client's procedure on the callback stack, until its far
  return comes to the stop callback.  `callback_returns`: whatever ran in between, the caller goes on at
  the stub's far return with its own stack, mode and IDT, and with the registers the structure
  holds by then; and the host has written to the structure and the callback stack alone.
-/
import Dosiz.ChildExit
import Dosiz.Startup
import Mathlib.Tactic.FinCases

namespace Dosiz.Nesting

open ByteMemory Machine Transition

/-! ### What the host writes -/

/-- The register fields of the structure, with their sizes. -/
def rmcsResults : List (Nat × Nat) :=
  rmcsRegs.map (fun p => (p.1, 4)) ++ [(0x20, 2)] ++ rmcsSegs.map (fun p => (p.1, 2))

/-- The fields that the host fills for a callback: the caller's CS:IP and SS:SP as well. -/
def rmcsFields : List (Nat × Nat) := rmcsResults ++ [(0x2A, 2), (0x2C, 2), (0x2E, 2), (0x30, 2)]

/-- The bytes of some fields of the structure at `rmcs`. -/
def fieldBytes (fields : List (Nat × Nat)) (rmcs : Nat) : Set Nat :=
  { x | ∃ f ∈ fields, x ∈ Set.Ico (lin (rmcs + f.1)) (lin (rmcs + f.1) + f.2) }

/-- The bytes of a callback stack at `base`. -/
def stackBytes (base : Nat) : Set Nat :=
  { x | ∃ k, k + 4 ≤ PM_CB_STACK_SIZE ∧ x ∈ Set.Ico (lin (base + k)) (lin (base + k) + 4) }

section Writes

variable {mem : Mem} {rmcs : Nat}

theorem foldl_off {α : Type} {S : Set Nat} {f : Mem → α → Mem} {l : List α}
    (h : ∀ p ∈ l, ∀ mem, AgreesOff S mem (f mem p)) (mem : Mem) : AgreesOff S mem (l.foldl f mem) := by
  induction l generalizing mem with
  | nil => exact .refl S mem
  | cons p l ih =>
    exact (h p List.mem_cons_self mem).trans (ih (fun q hq => h q (List.mem_cons_of_mem _ hq)) (f mem p))

theorem field_subset {fields : List (Nat × Nat)} {k n : Nat} (h : (k, n) ∈ fields) :
    Set.Ico (lin (rmcs + k)) (lin (rmcs + k) + n) ⊆ fieldBytes fields rmcs := fun _ hx => ⟨(k, n), h, hx⟩

theorem word_off {fields : List (Nat × Nat)} {k : Nat} (h : (k, 2) ∈ fields) (mem : Mem) (v : Nat) :
    AgreesOff (fieldBytes fields rmcs) mem (writew mem (lin (rmcs + k)) v) :=
  (writew_off mem _ v).mono (field_subset h)

theorem writeRmcs_off (mem : Mem) (rmcs : Nat) (m : Machine) :
    AgreesOff (fieldBytes rmcsResults rmcs) mem (writeRmcs mem rmcs m) := by
  have hregs : ∀ p ∈ rmcsRegs, (p.1, 4) ∈ rmcsResults := by decide
  have hsegs : ∀ p ∈ rmcsSegs, (p.1, 2) ∈ rmcsResults := by decide
  have hdwords := foldl_off (S := fieldBytes rmcsResults rmcs) (l := rmcsRegs)
    (f := fun mem p => writed mem (lin (rmcs + p.1)) (m.r32 p.2))
    (fun p hp mem => (writed_off mem _ _).mono (field_subset (hregs p hp))) mem
  have hflags := hdwords.trans (word_off (show (0x20, 2) ∈ rmcsResults by decide) _ m.cpu.flags.toNat)
  have hlast := foldl_off (S := fieldBytes rmcsResults rmcs) (l := rmcsSegs)
    (f := fun mem p => writew mem (lin (rmcs + p.1)) (m.segVal p.2))
    (fun p hp mem => word_off (hsegs p hp) mem _)
  unfold writeRmcs
  exact hflags.trans (hlast _)

theorem fieldBytes_mono {fields fields' : List (Nat × Nat)} (h : fields ⊆ fields') (rmcs : Nat) :
    fieldBytes fields rmcs ⊆ fieldBytes fields' rmcs := by
  rintro x ⟨f, hf, hx⟩
  exact ⟨f, h hf, hx⟩

theorem writeRmcsFull_off (mem : Mem) (rmcs : Nat) (m : Machine) :
    AgreesOff (fieldBytes rmcsFields rmcs) mem (writeRmcsFull mem rmcs m) := by
  have hregs := (writeRmcs_off mem rmcs m).mono
    (fieldBytes_mono (List.subset_append_left _ [(0x2A, 2), (0x2C, 2), (0x2E, 2), (0x30, 2)]) rmcs)
  have hip := hregs.trans (word_off (show (0x2A, 2) ∈ rmcsFields by decide) _ m.cpu.eip.toNat)
  have hcs := hip.trans (word_off (show (0x2C, 2) ∈ rmcsFields by decide) _ (m.segVal .cs))
  have hsp := hcs.trans (word_off (show (0x2E, 2) ∈ rmcsFields by decide) _ (m.r32 .esp))
  exact hsp.trans (word_off (show (0x30, 2) ∈ rmcsFields by decide) _ (m.segVal .ss))

theorem stop_subset {base k n : Nat} (hk : k + 4 ≤ PM_CB_STACK_SIZE) (hn : n ≤ 4) :
    Set.Ico (lin (base + k)) (lin (base + k) + n) ⊆ stackBytes base := by
  intro x hx
  exact ⟨k, hk, hx.1, lt_of_lt_of_le hx.2 (by omega)⟩

end Writes

/-! ### The client's procedure -/

section Enter

variable {eng : Engine} {cb : RmCallback} {m : Machine}

/-- The machine with the structure filled in. -/
def filled (cb : RmCallback) (m : Machine) : Machine :=
  m.setMem (writeRmcsFull m.mem (pmSelectorLinear m.mem cb.structSel cb.structOff) m)

/-- The client's machine before the stop frame is pushed. -/
def onCallbackStack (eng : Engine) (cb : RmCallback) (m : Machine) : Machine :=
  callbackSegs eng cb ((getDescriptor (callbackMode cb (filled cb m)) cb.pmCs).any
    (descBig (callbackMode cb (filled cb m)).mem)) (callbackMode cb (filled cb m))

theorem enterRmcb_eq : enterRmcb eng cb m = (pushStop (onCallbackStack eng cb m)
    (onCallbackStack eng cb m).cpu.codeBig).setEip (BitVec.ofNat 32 cb.pmEip) := rfl

theorem onCallbackStack_esp : (onCallbackStack eng cb m).r32 .esp = PM_CB_STACK_SIZE - 16 := by
  show (Machine.setR32 _ .esp (PM_CB_STACK_SIZE - 16)).r32 .esp = _
  rw [r32_setR32]
  rfl

theorem callbackMode_same (cb : RmCallback) (q : Machine) :
    (callbackMode cb q).mem = q.mem ∧ (callbackMode cb q).stubs = q.stubs := by
  unfold callbackMode cpuLoadCsCache
  split
  · exact ⟨rfl, rfl⟩
  · exact ⟨rfl, rfl⟩

theorem callbackSegs_same (eng : Engine) (cb : RmCallback) (big : Bool) (q : Machine) :
    (callbackSegs eng cb big q).mem = q.mem ∧ (callbackSegs eng cb big q).stubs = q.stubs := ⟨rfl, rfl⟩

theorem onCallbackStack_mem : (onCallbackStack eng cb m).mem = (filled cb m).mem :=
  (callbackSegs_same eng cb _ _).1.trans (callbackMode_same cb _).1

theorem onCallbackStack_stubs : (onCallbackStack eng cb m).stubs = m.stubs :=
  (callbackSegs_same eng cb _ _).2.trans (callbackMode_same cb _).2

/-- Where a 16-bit far return goes, as segment and offset. -/
def retTarget (m : Machine) : Nat × Nat :=
  (readw m.mem (physMake (m.segVal .ss) (m.sp + 2)), readw m.mem (physMake (m.segVal .ss) m.sp))

/-- Where a far return in protected mode goes, off 8 bytes in 32-bit code and 4 in 16-bit code. -/
def farTarget (m : Machine) : Nat × Nat :=
  let at_ := fun k => lin (m.segPhys .ss + m.r32 .esp + k)
  if m.cpu.codeBig then (readw m.mem (at_ 4), readd m.mem (at_ 0))
  else (readw m.mem (at_ 2), readw m.mem (at_ 0))

theorem pushStop_segPhys (q : Machine) (big : Bool) : (pushStop q big).segPhys .ss = q.segPhys .ss := by
  unfold pushStop
  cases big <;> rfl

theorem pushStop_off {q : Machine} (hesp : q.r32 .esp = PM_CB_STACK_SIZE - 16) (big : Bool) :
    AgreesOff (stackBytes (q.segPhys .ss)) q.mem (pushStop q big).mem := by
  have hpush : ∀ v, (q.setR32 .esp v).r32 .esp = v % 4294967296 := fun v => r32_setR32 q .esp v
  have hword : ∀ k mem v, k + 4 ≤ PM_CB_STACK_SIZE →
      AgreesOff (stackBytes (q.segPhys .ss)) mem (writew mem (lin (q.segPhys .ss + k)) v) :=
    fun k mem v hk => (writew_off mem _ v).mono (stop_subset hk (by decide))
  unfold pushStop
  cases big with
  | true =>
    have hat : (q.setR32 .esp (q.r32 .esp + 4294967288)).r32 .esp = 0xFE8 := by
      rw [hpush, hesp]
      rfl
    have hstop : AgreesOff (stackBytes (q.segPhys .ss)) q.mem
        (writed q.mem (lin (q.segPhys .ss + 0xFE8)) (q.stubs.rmStopPtr % 65536)) :=
      (writed_off q.mem _ _).mono (stop_subset (by decide) (by decide))
    have hcs := hstop.trans (hword 0xFEC _ PM_CB_SEL (by decide))
    have hzero := hcs.trans (hword 0xFEE _ 0 (by decide))
    simp only [if_true, hat, Nat.add_assoc]
    exact hzero
  | false =>
    have hat : (q.setR32 .esp (q.r32 .esp + 4294967292)).r32 .esp = 0xFEC := by
      rw [hpush, hesp]
      rfl
    have hstop := hword 0xFEC q.mem (q.stubs.rmStopPtr % 65536) (by decide)
    have hcs := hstop.trans (hword 0xFEE _ PM_CB_SEL (by decide))
    simp only [Bool.false_eq_true, if_false, hat, Nat.add_assoc]
    exact hcs

theorem frame32_read (mem : Mem) (x off sel : Nat) (hoff : off < 65536) (hsel : sel < 65536) :
    let mem' := writew (writew (writed mem (lin (x + 0)) off) (lin (x + 4)) sel) (lin (x + 6)) 0
    readw mem' (lin (x + 4)) = sel ∧ readd mem' (lin (x + 0)) = off := by
  have hapart : lin (x + 4) + 2 ≤ lin (x + 6) ∨ lin (x + 6) + 2 ≤ lin (x + 4) := by
    unfold lin
    omega
  intro mem'
  refine ⟨?_, ?_⟩
  · rw [readw_writew_of_disjoint hapart, readw_writew]
    exact Nat.mod_eq_of_lt hsel
  · have hkept : AgreesOff (Set.Ico (lin (x + 4)) (lin (x + 4) + 2) ∪ Set.Ico (lin (x + 6)) (lin (x + 6) + 2))
        (writed mem (lin (x + 0)) off) mem' := (writew_off _ _ _).union (writew_off _ _ _)
    have hout : ∀ k < 4, lin (x + 0) + k ∉
        Set.Ico (lin (x + 4)) (lin (x + 4) + 2) ∪ Set.Ico (lin (x + 6)) (lin (x + 6) + 2) := by
      rintro k hk (⟨h₁, h₂⟩ | ⟨h₁, h₂⟩)
      · unfold lin at h₁ h₂
        omega
      · unfold lin at h₁ h₂
        omega
    rw [hkept.readd (by simpa using hout 0 (by decide)) (hout 1 (by decide)) (hout 2 (by decide)) (hout 3 (by decide)),
      readd_writed]
    omega

theorem frame16_read (mem : Mem) (x off sel : Nat) (hoff : off < 65536) (hsel : sel < 65536) :
    let mem' := writew (writew mem (lin (x + 0)) off) (lin (x + 2)) sel
    readw mem' (lin (x + 2)) = sel ∧ readw mem' (lin (x + 0)) = off := by
  have hapart : lin (x + 0) + 2 ≤ lin (x + 2) ∨ lin (x + 2) + 2 ≤ lin (x + 0) := by
    unfold lin
    omega
  intro mem'
  refine ⟨?_, ?_⟩
  · rw [readw_writew]
    exact Nat.mod_eq_of_lt hsel
  · rw [readw_writew_of_disjoint hapart, readw_writew]
    exact Nat.mod_eq_of_lt hoff

/-- The procedure's far return comes to the stop callback, in code of either size. -/
theorem pushStop_target (q : Machine) :
    farTarget (pushStop q q.cpu.codeBig) = (PM_CB_SEL, q.stubs.rmStopPtr % 65536) := by
  have hcode : ∀ big, (pushStop q big).cpu.codeBig = q.cpu.codeBig := by
    intro big
    unfold pushStop
    cases big <;> rfl
  have hoff : q.stubs.rmStopPtr % 65536 < 65536 := Nat.mod_lt _ (by decide)
  unfold farTarget
  rw [hcode, pushStop_segPhys]
  cases q.cpu.codeBig with
  | true =>
    obtain ⟨hcs, hip⟩ := frame32_read q.mem (q.segPhys .ss +
      (q.setR32 .esp (q.r32 .esp + 4294967288)).r32 .esp) _ PM_CB_SEL hoff (by decide)
    simp only [pushStop, if_true]
    exact Prod.ext hcs hip
  | false =>
    obtain ⟨hcs, hip⟩ := frame16_read q.mem (q.segPhys .ss +
      (q.setR32 .esp (q.r32 .esp + 4294967292)).r32 .esp) _ PM_CB_SEL hoff (by decide)
    simp only [pushStop, Bool.false_eq_true, if_false]
    exact Prod.ext hcs hip

theorem enterRmcb_segPhys : (enterRmcb eng cb m).segPhys .ss = (onCallbackStack eng cb m).segPhys .ss := by
  rw [enterRmcb_eq]
  exact pushStop_segPhys _ _

theorem enterRmcb_off : AgreesOff (fieldBytes rmcsFields (pmSelectorLinear m.mem cb.structSel cb.structOff) ∪
    stackBytes ((enterRmcb eng cb m).segPhys .ss)) m.mem (enterRmcb eng cb m).mem := by
  have hfill : AgreesOff (fieldBytes rmcsFields (pmSelectorLinear m.mem cb.structSel cb.structOff)) m.mem
      (onCallbackStack eng cb m).mem := by
    rw [onCallbackStack_mem]
    exact writeRmcsFull_off m.mem _ m
  rw [enterRmcb_segPhys, enterRmcb_eq]
  exact hfill.union (pushStop_off onCallbackStack_esp _)

theorem enterRmcb_target :
    farTarget (enterRmcb eng cb m) = (PM_CB_SEL, m.stubs.rmStopPtr % 65536) := by
  rw [enterRmcb_eq, ← onCallbackStack_stubs]
  exact pushStop_target _

/-- The callback stack is the host's own one when its descriptor is in place. -/
theorem enterRmcb_stack (heng : eng.Loads) (ht : TablesLoaded m.cpu) (hcpl : m.cpu.cpl = 0)
    (h₈ : DescAt (filled cb m).mem (GDT_BASE + 8 * 8) PM_CB_STACK_BASE (PM_CB_STACK_SIZE - 1) 0x92 true) :
    (enterRmcb eng cb m).segPhys .ss = PM_CB_STACK_BASE := by
  have hmode : (callbackMode cb (filled cb m)).mem = (filled cb m).mem ∧
      TablesLoaded (callbackMode cb (filled cb m)).cpu ∧ (callbackMode cb (filled cb m)).cpu.pmode = true ∧
      (callbackMode cb (filled cb m)).cpu.cpl = 0 := by
    have hpe : decide ((m.cpu.cr0 / 2 * 2 + 1) % 2 = 1) = true := by
      rw [decide_eq_true_eq]
      omega
    unfold callbackMode cpuLoadCsCache
    split
    · exact ⟨rfl, ⟨ht.gdtBase, ht.gdtLimit, ht.ldtBase, ht.ldtLimit⟩, hpe, hcpl⟩
    · exact ⟨rfl, ⟨ht.gdtBase, ht.gdtLimit, ht.ldtBase, ht.ldtLimit⟩, hpe, hcpl⟩
  rw [enterRmcb_segPhys]
  unfold onCallbackStack
  generalize callbackMode cb (filled cb m) = q at hmode
  obtain ⟨hmem, htab, hpm, hq⟩ := hmode
  unfold callbackSegs
  dsimp only
  generalize hes : cpuSetSegGeneral eng (cpuSetSegGeneral eng (q.setCodeBig _) .ds cb.structSel) .es
    cb.structSel = p
  have hp : p.mem = (filled cb m).mem ∧ TablesLoaded p.cpu ∧ p.cpu.pmode = true ∧ p.cpu.cpl = 0 := by
    rw [← hes]
    exact ⟨hmem, ⟨htab.gdtBase, htab.gdtLimit, htab.ldtBase, htab.ldtLimit⟩, hpm, hq⟩
  obtain ⟨hpmem, hptab, hppm, hpcpl⟩ := hp
  have hss := load_desc heng hptab hppm .ss PM_CB_STACK (by decide) (by decide) (by rw [hpmem]; exact h₈)
    (by decide) (by decide) (by rw [hpcpl]; decide)
  rw [hss]
  rfl

end Enter

/-! ### The caller goes on -/

/-- The caller `m` of the callback goes on as `r`, with the registers in the structure at `rmcs`. -/
structure CallerResumed (rmcs : Nat) (m r : Machine) : Prop where
  regs : ∀ p ∈ rmcsRegs, r.r32 p.2 = rmcsDword r.mem rmcs p.1
  flags : r.cpu.flags.toNat % 65536 = rmcsWord r.mem rmcs 0x20
  segs : ∀ p ∈ rmcsSegs, r.segVal p.2 = rmcsWord r.mem rmcs p.1
  bases : ∀ s, r.segPhys s = r.segVal s * 16
  ss : r.segVal .ss = m.segVal .ss
  esp : r.r32 .esp = m.r32 .esp
  cs : r.segVal .cs = m.segVal .cs
  eip : r.cpu.eip = m.cpu.eip
  cr0 : r.cpu.cr0 = m.cpu.cr0
  realMode : r.cpu.pmode = false
  narrow : r.cpu.codeBig = false ∧ r.cpu.stackBig = false
  idt : r.cpu.idtBase = m.cpu.idtBase ∧ r.cpu.idtLimit = m.cpu.idtLimit

/-- The registers with those of the structure at `rmcs` among them. -/
def rmcsRegFile (mem : Mem) (rmcs : Nat) (regs : Reg → BitVec 32) : Reg → BitVec 32 :=
  rmcsRegs.foldl (fun regs p => Function.update regs p.2 (BitVec.ofNat 32 (rmcsDword mem rmcs p.1))) regs

/-- A real-mode segment register. -/
def realSeg (v : Nat) : SegReg := ⟨BitVec.ofNat 16 v, BitVec.ofNat 32 (v * 16)⟩

/-- The segments with those of the structure at `rmcs` among them. -/
def rmcsSegFile (mem : Mem) (rmcs : Nat) (segs : SegName → SegReg) : SegName → SegReg :=
  rmcsSegs.foldl (fun segs p => Function.update segs p.2 (realSeg (rmcsWord mem rmcs p.1))) segs

section Leave

variable {eng : Engine} {cb : RmCallback} {rmcs : Nat}

theorem loadRmcsRegs_eq (m : Machine) (rmcs : Nat) :
    loadRmcsRegs m rmcs = m.setRegs (rmcsRegFile m.mem rmcs m.cpu.regs) := by
  have hfold : ∀ (l : List (Nat × Reg)) (m : Machine),
      l.foldl (fun m p => m.setR32 p.2 (rmcsDword m.mem rmcs p.1)) m = m.setRegs (l.foldl
        (fun regs p => Function.update regs p.2 (BitVec.ofNat 32 (rmcsDword m.mem rmcs p.1))) m.cpu.regs) := by
    intro l
    induction l with
    | nil => exact fun m => rfl
    | cons p l ih => exact fun m => ih _
  exact hfold rmcsRegs m

theorem segSet16_real (heng : eng.LoadsReal) (m : Machine) (s : SegName) (v : Nat) :
    segSet16 eng m s v = mirrorSeg m s (realSeg v, false) := by
  rw [segSet16, heng]
  rfl

theorem rmcsSegs_fold (heng : eng.LoadsReal) (m : Machine) (rmcs : Nat) :
    rmcsSegs.foldl (fun m p => segSet16 eng m p.2 (rmcsWord m.mem rmcs p.1)) m =
      { m with cpu := { m.cpu with segs := rmcsSegFile m.mem rmcs m.cpu.segs } } := by
  have hfold : ∀ (l : List (Nat × SegName)), (∀ p ∈ l, p.2 ≠ .ss ∧ p.2 ≠ .cs) → ∀ m : Machine,
      l.foldl (fun m p => segSet16 eng m p.2 (rmcsWord m.mem rmcs p.1)) m =
        { m with cpu := { m.cpu with segs := (l.foldl (fun segs p => Function.update segs p.2
          (realSeg (rmcsWord m.mem rmcs p.1))) m.cpu.segs) } } := by
    intro l
    induction l with
    | nil => exact fun _ m => rfl
    | cons p l ih =>
      intro hl m
      obtain ⟨hss, hcs⟩ := hl p List.mem_cons_self
      have hstep : segSet16 eng m p.2 (rmcsWord m.mem rmcs p.1) = { m with cpu := { m.cpu with
          segs := Function.update m.cpu.segs p.2 (realSeg (rmcsWord m.mem rmcs p.1)) } } := by
        rw [segSet16_real heng]
        unfold mirrorSeg
        rw [if_neg hss, if_neg hcs]
      rw [List.foldl_cons, hstep]
      exact ih (fun q hq => hl q (List.mem_cons_of_mem _ hq)) _
  exact hfold rmcsSegs (by decide) m

theorem reloadRmcs_eq (heng : eng.LoadsReal) (m : Machine) : reloadRmcs eng rmcs m =
    { m with cpu := { m.cpu with
        regs := rmcsRegFile m.mem rmcs m.cpu.regs
        flags := BitVec.ofNat 32 (rmcsWord m.mem rmcs 0x20 + m.cpu.flags.toNat / 65536 * 65536)
        segs := rmcsSegFile m.mem rmcs m.cpu.segs } } := by
  unfold reloadRmcs
  dsimp only
  rw [loadRmcsRegs_eq, rmcsSegs_fold heng]
  rfl

theorem rmcsRegFile_get (mem : Mem) (rmcs : Nat) (regs : Reg → BitVec 32) :
    ∀ p ∈ rmcsRegs, rmcsRegFile mem rmcs regs p.2 = BitVec.ofNat 32 (rmcsDword mem rmcs p.1) := by
  intro p hp
  fin_cases hp <;> rfl

theorem rmcsSegFile_get (mem : Mem) (rmcs : Nat) (segs : SegName → SegReg) :
    ∀ p ∈ rmcsSegs, rmcsSegFile mem rmcs segs p.2 = realSeg (rmcsWord mem rmcs p.1) := by
  intro p hp
  fin_cases hp <;> rfl

theorem leaveRmcb_eq (heng : eng.LoadsReal) (saved : RmcbSaved) (m : Machine) :
    (leaveRmcb eng saved m).1 = { m with cpu := { m.cpu with
        regs := Function.update (rmcsRegFile m.mem saved.rmcs m.cpu.regs) .esp (BitVec.ofNat 32 saved.esp)
        eip := saved.eip
        flags := BitVec.ofNat 32 (rmcsWord m.mem saved.rmcs 0x20 + m.cpu.flags.toNat / 65536 * 65536)
        segs := Function.update (Function.update (rmcsSegFile m.mem saved.rmcs m.cpu.segs) .ss
          (realSeg saved.ss)) .cs (realSeg saved.cs)
        cr0 := saved.cr0
        pmode := saved.cr0 % 2 = 1
        stackBig := false
        codeBig := false
        idtLimit := saved.idtLimit
        idtBase := saved.idtBase } } := by
  unfold leaveRmcb
  dsimp only
  rw [reloadRmcs_eq heng, segSet16_real heng, segSet16_real heng]
  rfl

/-- The second half, whatever the client's procedure left behind. -/
theorem leaveRmcb_resumes (heng : eng.LoadsReal) {m : Machine} (hreal : m.cpu.cr0 % 2 = 0) (m' : Machine) :
    CallerResumed (saveRmcb cb m).rmcs m (leaveRmcb eng (saveRmcb cb m) m').1 := by
  rw [leaveRmcb_eq heng]
  generalize (saveRmcb cb m).rmcs = rmcs
  have hreg : ∀ k, (BitVec.ofNat 32 (rmcsDword m'.mem rmcs k)).toNat = rmcsDword m'.mem rmcs k := by
    intro k
    rw [BitVec.toNat_ofNat]
    exact Nat.mod_eq_of_lt (readd_lt _ _)
  have hval : ∀ v, v < 65536 → (realSeg v).val.toNat = v := by
    intro v hv
    show (BitVec.ofNat 16 v).toNat = v
    rw [BitVec.toNat_ofNat]
    exact Nat.mod_eq_of_lt hv
  have hphys : ∀ v, v < 65536 → (realSeg v).phys.toNat = (realSeg v).val.toNat * 16 := by
    intro v hv
    rw [hval v hv]
    show (BitVec.ofNat 32 (v * 16)).toNat = v * 16
    rw [BitVec.toNat_ofNat]
    omega
  have hword : ∀ k, rmcsWord m'.mem rmcs k < 65536 := fun k => readw_lt _ _
  refine ⟨?_, ?_, ?_, ?_, ?_, ?_, ?_, rfl, rfl, ?_, ⟨rfl, rfl⟩, ⟨rfl, rfl⟩⟩
  · intro p hp
    have hne : ∀ p ∈ rmcsRegs, p.2 ≠ .esp := by decide
    have hget := (Function.update_of_ne (hne p hp) (BitVec.ofNat 32 (saveRmcb cb m).esp)
      (rmcsRegFile m'.mem rmcs m'.cpu.regs)).trans (rmcsRegFile_get _ _ _ p hp)
    exact (congrArg BitVec.toNat hget).trans (hreg p.1)
  · have := hword 0x20
    have := m'.cpu.flags.isLt
    show (BitVec.ofNat 32 _).toNat % 65536 = rmcsWord m'.mem rmcs 0x20
    rw [BitVec.toNat_ofNat]
    omega
  · intro p hp
    have hne : ∀ p ∈ rmcsSegs, p.2 ≠ .cs ∧ p.2 ≠ .ss := by decide
    obtain ⟨hcs, hss⟩ := hne p hp
    have hget := ((Function.update_of_ne hcs (realSeg (saveRmcb cb m).cs) (Function.update
      (rmcsSegFile m'.mem rmcs m'.cpu.segs) .ss (realSeg (saveRmcb cb m).ss))).trans
      (Function.update_of_ne hss _ _)).trans (rmcsSegFile_get _ _ _ p hp)
    exact (congrArg (fun r => r.val.toNat) hget).trans (hval _ (hword p.1))
  · intro s
    cases s with
    | cs => exact hphys _ (segVal_lt m .cs)
    | ss => exact hphys _ (segVal_lt m .ss)
    | es => exact hphys _ (hword 0x22)
    | ds => exact hphys _ (hword 0x24)
    | fs => exact hphys _ (hword 0x26)
    | gs => exact hphys _ (hword 0x28)
  · exact hval _ (segVal_lt m .ss)
  · show (BitVec.ofNat 32 (m.r32 .esp)).toNat = m.r32 .esp
    rw [BitVec.toNat_ofNat]
    exact Nat.mod_eq_of_lt (r32_lt m .esp)
  · exact hval _ (segVal_lt m .cs)
  · show decide (m.cpu.cr0 % 2 = 1) = false
    rw [decide_eq_false_iff_not]
    omega

end Leave

/-- **A real-mode callback.**  The client's procedure is entered with a far return to the stop callback
    on its stack, and the host has written to the structure and the callback stack alone.  When that
    return is taken the caller goes on where it was, in real mode, with what the structure holds. -/
theorem callback_returns {eng : Engine} (heng : eng.LoadsReal) {idx : Nat} {cb : RmCallback}
    {s s₁ s₂ s₃ s₄ : State} (hcb : s.m.rmCallbacks[idx]? = some cb) (hreal : s.m.cpu.cr0 % 2 = 0)
    (h₁ : step eng s (.enterRmcb idx) s₁) (hl : s₂.levels = s₁.levels)
    (h₂ : step eng s₂ .stopCallback s₃) (h₃ : step eng s₃ .unwind s₄) :
    let rmcs := pmSelectorLinear s.m.mem cb.structSel cb.structOff
    let frame := { x | ∃ k ∈ [0, 2], x ∈ Set.Ico (physMake (s.m.segVal .ss) (s.m.sp + k))
      (physMake (s.m.segVal .ss) (s.m.sp + k) + 2) }
    AgreesOff (fieldBytes rmcsFields rmcs ∪ stackBytes (s₁.m.segPhys .ss)) s.m.mem s₁.m.mem ∧
      (eng.Loads → TablesLoaded s.m.cpu → s.m.cpu.cpl = 0 →
        DescAt (writeRmcsFull s.m.mem rmcs s.m) (GDT_BASE + 8 * 8) PM_CB_STACK_BASE (PM_CB_STACK_SIZE - 1)
          0x92 true → s₁.m.segPhys .ss = PM_CB_STACK_BASE) ∧
      farTarget s₁.m = (PM_CB_SEL, s.m.stubs.rmStopPtr % 65536) ∧
      CallerResumed rmcs s.m s₄.m ∧ s₄.m.mem = s₂.m.mem ∧ s₄.levels = s.levels ∧ s₄.stop = false ∧
      ((∀ x ∈ frame, s₂.m.mem x = s.m.mem x) → retTarget s₄.m = retTarget s.m) := by
  obtain ⟨cb', -, hcb', -, rfl⟩ := h₁
  obtain rfl : cb = cb' := Option.some.inj (hcb.symm.trans hcb')
  obtain ⟨-, -, rfl⟩ := h₂
  obtain rfl := unwind_eq h₃ hl
  have hresume : CallerResumed (saveRmcb cb s.m).rmcs s.m (leaveRmcb eng (saveRmcb cb s.m) s₂.m).1 :=
    leaveRmcb_resumes heng hreal s₂.m
  have hmem : (leaveRmcb eng (saveRmcb cb s.m) s₂.m).1.mem = s₂.m.mem := by rw [leaveRmcb_eq heng]
  intro rmcs frame
  refine ⟨enterRmcb_off, ?_, enterRmcb_target, hresume, hmem, rfl, rfl, ?_⟩
  · intro hloads ht hcpl h₈
    exact enterRmcb_stack hloads ht hcpl h₈
  · intro hframe
    have hsp : (leaveRmcb eng (saveRmcb cb s.m) s₂.m).1.sp = s.m.sp :=
      congrArg (· % 65536) hresume.esp
    have hword : ∀ k ∈ [0, 2], readw s₂.m.mem (physMake (s.m.segVal .ss) (s.m.sp + k)) =
        readw s.m.mem (physMake (s.m.segVal .ss) (s.m.sp + k)) := by
      intro k hk
      have hlow := hframe (physMake (s.m.segVal .ss) (s.m.sp + k)) ⟨k, hk, le_refl _, by omega⟩
      have hhigh := hframe (physMake (s.m.segVal .ss) (s.m.sp + k) + 1)
        ⟨k, hk, by omega, by omega⟩
      rw [readw, readw, readb, readb, readb, readb, hlow, hhigh]
    show retTarget (leaveRmcb eng (saveRmcb cb s.m) s₂.m).1 = retTarget s.m
    unfold retTarget
    rw [hmem, hsp, hresume.ss, hword 2 (by decide)]
    exact Prod.ext rfl (hword 0 (by decide))

/-- A machine with one callback, its structure in the segment of base 0 at 0x20000. -/
def calledBack : Machine :=
  { bootMachine with rmCallbacks := [⟨true, 0, 0x0F, 0x100, 0, 0x20000⟩] }

/-- The procedure stores 0x1234 as EAX in the structure. -/
theorem callback_returns_eax : ∃ rmcs s₁ s₂ s₃ s₄,
    step tableEngine ⟨calledBack, [], false⟩ (.enterRmcb 0) s₁ ∧
      s₂ = ⟨s₁.m.setMem (writed s₁.m.mem (lin (rmcs + 0x1C)) 0x1234), s₁.levels, false⟩ ∧
      step tableEngine s₂ .stopCallback s₃ ∧ step tableEngine s₃ .unwind s₄ ∧
      CallerResumed rmcs calledBack s₄.m ∧ s₄.m.r32 .eax = 0x1234 ∧ s₄.levels = [] := by
  obtain ⟨s₁, l, h₁, hl⟩ : ∃ s₁ l, step tableEngine ⟨calledBack, [], false⟩ (.enterRmcb 0) s₁ ∧
      s₁.levels = [l] := ⟨_, _, ⟨_, rfl, rfl, rfl, rfl⟩, rfl⟩
  let rmcs := pmSelectorLinear calledBack.mem 0 0x20000
  let m₂ := s₁.m.setMem (writed s₁.m.mem (lin (rmcs + 0x1C)) 0x1234)
  have h₂ : step tableEngine ⟨m₂, s₁.levels, false⟩ .stopCallback ⟨m₂, s₁.levels, true⟩ := by
    refine ⟨rfl, ?_, rfl⟩
    show s₁.levels ≠ []
    rw [hl]
    exact List.cons_ne_nil l []
  have h₃ : step tableEngine ⟨m₂, s₁.levels, true⟩ .unwind
      ⟨(l.finish tableEngine m₂).1, [], (l.finish tableEngine m₂).2⟩ := ⟨l, [], rfl, hl, rfl⟩
  obtain ⟨-, -, -, hresume, hmem, hlevels, -⟩ := callback_returns tableEngine_loadsReal rfl rfl h₁
    (show (⟨m₂, s₁.levels, false⟩ : State).levels = s₁.levels from rfl) h₂ h₃
  refine ⟨rmcs, s₁, _, _, _, h₁, rfl, h₂, h₃, hresume, ?_, hlevels⟩
  have heax := hresume.regs (0x1C, .eax) (by decide)
  rw [hmem] at heax
  exact heax.trans (readd_writed _ _ _)

end Dosiz.Nesting
