/-
  Dosiz/PmException.lean
  ======================
  **Protected-mode exceptions of a ring-3 client** (`dosiz_pm_exc_dispatch`,
  `dosiz_pm_exc_ret` of `bridge.cc`).

  A fault at ring 3 makes the CPU push a frame on the ring-0 stack and enter the
  trampoline of its vector.  The dispatcher copies the frame, with a return address in
  front, to the top of a private stack (`EXC_FRAME`) and sends the client's handler there.
  The handler far-returns into `dosiz_pm_exc_ret`, which lays an IRETD frame below the
  interrupted stack pointer.

  The private frame has one fixed address.  A handler's return resumes what its own fault
  interrupted while that fault is the last one dispatched, and while the 12 bytes fit on
  the interrupted stack the way the CPU will pop them (`Resumable`).
-/
import Dosiz.Descriptors
import Dosiz.Transition

namespace Dosiz.PmException

open ByteMemory Machine Transition

/-! ### The functions of the source -/

/-- `pm_exc_has_err_code` -/
def pmExcHasErrCode (vec : Nat) : Bool := vec = 8 || (10 ≤ vec && vec ≤ 14) || vec = 17

/-- The frame the CPU pushes for a fault at ring 3, the error code (0 if there is none) first. -/
structure Interrupted where
  err : Nat
  eip : Nat
  cs : Nat
  eflags : Nat
  esp : Nat
  ss : Nat
deriving DecidableEq, Repr

/-- The CPU-pushed frame on the ring-0 stack at callback entry. -/
def pushedFrame (m : Machine) (vec : Nat) : Interrupted :=
  let fp := m.segPhys .ss + m.r32 .esp
  let at_ := fun k => readd m.mem (lin (fp + k))
  if pmExcHasErrCode vec then ⟨at_ 0, at_ 4, at_ 8, at_ 12, at_ 16, at_ 20 % 65536⟩
  else ⟨0, at_ 0, at_ 4, at_ 8, at_ 12, at_ 16 % 65536⟩

/-- Where the handler's frame goes: the top 32 bytes of the private exception stack. -/
def EXC_FRAME : Nat := PM_EXC_STACK_BASE + (PM_CB_STACK_SIZE - 32)

/-- The recursion guard: the counters after a fault at `cs:eip`, and whether it gives up. -/
def faultGuard (m : Machine) (cs eip : Nat) : Machine × Bool :=
  if cs = m.lastFaultCs ∧ eip = m.lastFaultEip then
    ({ m with faultCount := m.faultCount + 1 }, 4 < m.faultCount + 1)
  else ({ m with faultCount := 0, lastFaultEip := eip, lastFaultCs := cs % 65536 }, false)

/-- The handler's frame: the return address into `user_exception_return`, then the fault's. -/
def frameWords (ret : Nat) (f : Interrupted) : List Nat :=
  [ret, PM_CB3_SEL, f.err, f.eip, f.cs, f.eflags, f.esp, f.ss]

/-- The client's frame on the private stack, and on the ring-0 stack the frame that sends the
    stub's IRETD to the handler (past the error code, where there is one). -/
def enterHandler (m : Machine) (vec : Nat) (f : Interrupted) : Machine :=
  let user := m.pmExc vec
  let clientNewEsp := PM_CB_STACK_SIZE - 32
  let mem := storeDwords m.mem EXC_FRAME (frameWords m.stubs.pmExcRet f)
  let iretOff := if pmExcHasErrCode vec then 4 else 0
  let fp := m.segPhys .ss + m.r32 .esp + iretOff
  let userCsRpl3 := user.sel / 4 * 4 + 3
  let ifClear := (BitVec.ofNat 32 f.eflags &&& ~~~0x200#32).toNat
  let mem := writed mem (lin fp) user.off
  let mem := writed mem (lin (fp + 4)) userCsRpl3
  let mem := writed mem (lin (fp + 8)) ifClear
  let mem := writed mem (lin (fp + 12)) clientNewEsp
  let mem := writed mem (lin (fp + 16)) PM_EXC_STACK_SEL
  let m := { m with mem := mem }
  if pmExcHasErrCode vec then m.setR32 .esp (m.r32 .esp + 4) else m

/-- `dosiz_pm_exc_dispatch`; `true` is `CBRET_STOP`. -/
def pmExcDispatch (m : Machine) (vec : Nat) : Machine × Bool :=
  let csOff := if pmExcHasErrCode vec then 8 else 4
  let pushedCs := readd m.mem (lin (m.segPhys .ss + m.r32 .esp + csOff)) % 65536
  -- a fault of ring-0 code is logged and ends the program (`dosiz_le_exc_handle32`)
  if pushedCs % 4 = 0 then (m, true)
  else
    let f := pushedFrame m vec
    let g := faultGuard m f.cs f.eip
    if g.2 then (g.1, true)
    else if (g.1.pmExc vec).sel = 0 then (g.1, true)
    else (enterHandler g.1 vec f, false)

/-- Lay an IRETD frame at `newEsp` on the current stack and move the stack pointer there. -/
def layIretd (m : Machine) (newEsp eip cs eflags : Nat) : Machine :=
  let mem := writed m.mem (lin (m.segPhys .ss + newEsp)) eip
  let mem := writed mem (lin (m.segPhys .ss + newEsp + 4)) cs
  let mem := writed mem (lin (m.segPhys .ss + newEsp + 8)) eflags
  setStack { m with mem := mem } newEsp

/-- `dosiz_pm_exc_ret` -/
def pmExcRet (eng : Engine) (m : Machine) : Machine :=
  let fp := m.segPhys .ss + stackOffset m
  let eip := readd m.mem (lin (fp + 4))
  let cs := readd m.mem (lin (fp + 8))
  let eflags := readd m.mem (lin (fp + 12))
  let oesp := readd m.mem (lin (fp + 16))
  let oss := readd m.mem (lin (fp + 20)) % 65536
  -- `oesp - 12u`
  layIretd (cpuSetSegGeneral eng m .ss oss) (lin (oesp + 4294967284)) eip cs eflags

/-! ### What the CPU does at either end

The handler's far return pops an offset and a selector from its stack.  The IRETD of the
stub pops three dwords at the same privilege level. -/

/-- Where a far return goes. -/
def farTarget (m : Machine) : Nat × Nat :=
  (readd m.mem (lin (m.segPhys .ss + stackOffset m)),
    readd m.mem (lin (m.segPhys .ss + stackOffset m + 4)) % 65536)

/-- The stack after a far return. -/
def farReturn (m : Machine) : Machine := setStack m (stackOffset m + 8)

/-- What an IRETD would resume: CS:EIP, EFLAGS and SS:ESP. -/
structure Context where
  cs : Nat
  eip : Nat
  eflags : Nat
  ss : Nat
  esp : Nat
deriving DecidableEq, Repr

def resumed (m : Machine) : Context :=
  let pop := fun k => readd m.mem (lin (m.segPhys .ss + wrapStack m (stackOffset m + k)))
  ⟨pop 4 % 65536, pop 0, pop 8, m.segVal .ss, (setStack m (stackOffset m + 12)).r32 .esp⟩

/-- What a fault interrupted. -/
def Interrupted.context (f : Interrupted) : Context := ⟨f.cs % 65536, f.eip, f.eflags, f.ss, f.esp⟩

/-! ### The private frame -/

/-- The private frame belongs to the fault `f`. -/
def FrameOf (mem : Mem) (ret : Nat) (f : Interrupted) : Prop :=
  ∀ (i : Nat) (h : i < (frameWords ret f).length),
    readd mem (EXC_FRAME + 4 * i) = (frameWords ret f)[i] % 4294967296

/-- The CPU has pushed its frame on the ring-0 stack of the TSS, and the fault was at ring 3. -/
structure FromRing3 (m : Machine) (vec : Nat) : Prop where
  low : PM_CB_STACK_BASE ≤ m.segPhys .ss + m.r32 .esp
  high : m.segPhys .ss + m.r32 .esp + 24 ≤ PM_CB_STACK_BASE + PM_CB_STACK_SIZE
  rpl : (pushedFrame m vec).cs % 4 = 3

theorem pushedFrame_lt (m : Machine) (vec : Nat) :
    (pushedFrame m vec).err < 4294967296 ∧ (pushedFrame m vec).eip < 4294967296 ∧
      (pushedFrame m vec).cs < 4294967296 ∧ (pushedFrame m vec).eflags < 4294967296 ∧
      (pushedFrame m vec).esp < 4294967296 ∧ (pushedFrame m vec).ss < 65536 := by
  unfold pushedFrame
  dsimp only
  split
  · exact ⟨readd_lt _ _, readd_lt _ _, readd_lt _ _, readd_lt _ _, readd_lt _ _,
      Nat.mod_lt _ (by decide)⟩
  · exact ⟨by simp, readd_lt _ _, readd_lt _ _, readd_lt _ _, readd_lt _ _,
      Nat.mod_lt _ (by decide)⟩

/-- Stores on the ring-0 stack miss the private frame. -/
theorem frameOf_writed {mem : Mem} {ret : Nat} {f : Interrupted} (h : FrameOf mem ret f) {a : Nat}
    (v : Nat) (ha : a + 4 ≤ PM_EXC_STACK_BASE) : FrameOf (writed mem a v) ret f := by
  intro i hi
  rw [← h i hi]
  refine readd_writed_of_disjoint (Or.inr ?_)
  simp only [EXC_FRAME]
  omega

/-- Both frames written, the private one is the fault's. -/
theorem enterHandler_frame {m : Machine} {vec : Nat} (h : FromRing3 m vec) (f : Interrupted) :
    FrameOf (enterHandler m vec f).mem m.stubs.pmExcRet f := by
  have hlow := h.low
  have hhigh := h.high
  simp only [PM_CB_STACK_BASE, PM_CB_STACK_SIZE] at hlow hhigh
  have hoff : (if pmExcHasErrCode vec then 4 else 0) ≤ 4 := by split <;> omega
  have hfp : ∀ k ≤ 16, lin (m.segPhys .ss + m.r32 .esp + (if pmExcHasErrCode vec then 4 else 0) + k)
      + 4 ≤ PM_EXC_STACK_BASE := by
    intro k hk
    rw [lin_of_lt (by omega)]
    simp only [PM_EXC_STACK_BASE]
    omega
  have hstored : FrameOf (storeDwords m.mem EXC_FRAME (frameWords m.stubs.pmExcRet f))
      m.stubs.pmExcRet f := fun _ hi => readd_storeDwords _ _ _ hi
  have hall := frameOf_writed (frameOf_writed (frameOf_writed (frameOf_writed (frameOf_writed hstored
    (m.pmExc vec).off (hfp 0 (by decide))) ((m.pmExc vec).sel / 4 * 4 + 3) (hfp 4 (by decide)))
    (BitVec.ofNat 32 f.eflags &&& ~~~0x200#32).toNat (hfp 8 (by decide)))
    (PM_CB_STACK_SIZE - 32) (hfp 12 (by decide))) PM_EXC_STACK_SEL (hfp 16 (by decide))
  cases he : pmExcHasErrCode vec with
  | false =>
    simp only [enterHandler, he, Bool.false_eq_true, if_false, Nat.add_zero] at hall ⊢
    exact hall
  | true =>
    simp only [enterHandler, he, if_true, Nat.add_zero] at hall ⊢
    exact hall

/-- After a dispatch that does not stop, the private frame is the fault's. -/
theorem pmExcDispatch_frame {m : Machine} {vec : Nat} (h : FromRing3 m vec)
    (hgo : (pmExcDispatch m vec).2 = false) :
    FrameOf (pmExcDispatch m vec).1.mem m.stubs.pmExcRet (pushedFrame m vec) := by
  have hsame : ∀ cs eip, FromRing3 (faultGuard m cs eip).1 vec := by
    intro cs eip
    unfold faultGuard
    split
    · exact ⟨h.low, h.high, h.rpl⟩
    · exact ⟨h.low, h.high, h.rpl⟩
  unfold pmExcDispatch at hgo ⊢
  dsimp only at hgo ⊢
  have hstubs : ∀ cs eip, (faultGuard m cs eip).1.stubs = m.stubs := by
    intro cs eip
    unfold faultGuard
    split <;> rfl
  split_ifs at hgo ⊢ <;> exact hstubs _ _ ▸ enterHandler_frame (hsame _ _) _

/-! ### Returning -/

/-- The handler is about to far-return with its stack at its frame. -/
structure AtFrame (m : Machine) : Prop where
  base : m.segPhys .ss = PM_EXC_STACK_BASE
  top : stackOffset m = PM_CB_STACK_SIZE - 32

/-- The interrupted stack can be loaded again, and the 12 bytes below its stack pointer are
    where the CPU pops them: always on a 32-bit stack; on a 16-bit one when ESP is an offset in
    its 64 KB that is at least 12, and the handler has left the high half of ESP 0. -/
structure Resumable (eng : Engine) (m : Machine) (f : Interrupted) : Prop where
  loads : (eng.loadSegment m.mem (farReturn m).cpu .ss f.ss).1.val.toNat = f.ss
  fits : (eng.loadSegment m.mem (farReturn m).cpu .ss f.ss).2 = true ∨
    (12 ≤ f.esp ∧ f.esp < 65536 ∧ m.r32 .esp < 65536)

theorem farReturn_mem (m : Machine) : (farReturn m).mem = m.mem := by
  unfold farReturn setStack
  split <;> rfl

/-- Three dwords stored at consecutive addresses that may wrap. -/
theorem readd_three (mem : Mem) (a x y z : Nat) (hx : x < 4294967296) (hy : y < 4294967296)
    (hz : z < 4294967296) :
    readd (writed (writed (writed mem (lin a) x) (lin (a + 4)) y) (lin (a + 8)) z) (lin a) = x ∧
    readd (writed (writed (writed mem (lin a) x) (lin (a + 4)) y) (lin (a + 8)) z) (lin (a + 4)) = y ∧
    readd (writed (writed (writed mem (lin a) x) (lin (a + 4)) y) (lin (a + 8)) z) (lin (a + 8)) = z := by
  have h₀₁ : lin a + 4 ≤ lin (a + 4) ∨ lin (a + 4) + 4 ≤ lin a := by
    simp only [lin]
    omega
  have h₀₂ : lin a + 4 ≤ lin (a + 8) ∨ lin (a + 8) + 4 ≤ lin a := by
    simp only [lin]
    omega
  have h₁₂ : lin (a + 4) + 4 ≤ lin (a + 8) ∨ lin (a + 8) + 4 ≤ lin (a + 4) := by
    simp only [lin]
    omega
  refine ⟨?_, ?_, ?_⟩
  · rw [readd_writed_of_disjoint h₀₂, readd_writed_of_disjoint h₀₁, readd_writed,
      Nat.mod_eq_of_lt hx]
  · rw [readd_writed_of_disjoint h₁₂, readd_writed, Nat.mod_eq_of_lt hy]
  · rw [readd_writed, Nat.mod_eq_of_lt hz]

/-- The fields of a fault fit their slots of the frame. -/
structure Interrupted.Fits (f : Interrupted) : Prop where
  eip : f.eip < 4294967296
  cs : f.cs < 4294967296
  eflags : f.eflags < 4294967296
  esp : f.esp < 4294967296
  ss : f.ss < 65536

/-- What `dosiz_pm_exc_ret` reads off the private frame. -/
theorem frameOf_fields {mem : Mem} {ret : Nat} {f : Interrupted} (h : FrameOf mem ret f)
    (hf : f.Fits) :
    readd mem EXC_FRAME = ret % 4294967296 ∧ readd mem (EXC_FRAME + 4) = PM_CB3_SEL ∧
      readd mem (EXC_FRAME + 12) = f.eip ∧ readd mem (EXC_FRAME + 16) = f.cs ∧
      readd mem (EXC_FRAME + 20) = f.eflags ∧ readd mem (EXC_FRAME + 24) = f.esp ∧
      readd mem (EXC_FRAME + 28) = f.ss := by
  have hss : f.ss < 4294967296 := by
    have := hf.ss
    omega
  refine ⟨h 0 (by simp [frameWords]), h 1 (by simp [frameWords]),
    (h 3 (by simp [frameWords])).trans (Nat.mod_eq_of_lt hf.eip),
    (h 4 (by simp [frameWords])).trans (Nat.mod_eq_of_lt hf.cs),
    (h 5 (by simp [frameWords])).trans (Nat.mod_eq_of_lt hf.eflags),
    (h 6 (by simp [frameWords])).trans (Nat.mod_eq_of_lt hf.esp),
    (h 7 (by simp [frameWords])).trans (Nat.mod_eq_of_lt hss)⟩

/-- The context popped off a stack whose pointer has just been set to `v`. -/
theorem resumed_setStack (m : Machine) (v : Nat) : resumed (setStack m v) =
    ⟨readd m.mem (lin (m.segPhys .ss + wrapStack m (wrapStack m v + 4))) % 65536,
      readd m.mem (lin (m.segPhys .ss + wrapStack m (wrapStack m v + 0))),
      readd m.mem (lin (m.segPhys .ss + wrapStack m (wrapStack m v + 8))), m.segVal .ss,
      if m.cpu.stackBig then lin (wrapStack m v + 12)
      else m.r32 .esp / 65536 * 65536 + (wrapStack m v + 12) % 65536⟩ := by
  have hw : ∀ k, wrapStack (setStack m v) k = wrapStack m k := fun k => by
    simp only [wrapStack, (setStack_frame m v).2.2]
  have hv : (setStack m v).segVal .ss = m.segVal .ss := by
    simp only [segVal, (setStack_frame m v).2.1]
  have hesp : (setStack (setStack m v) (wrapStack m v + 12)).r32 .esp =
      if m.cpu.stackBig then lin (wrapStack m v + 12)
      else m.r32 .esp / 65536 * 65536 + (wrapStack m v + 12) % 65536 := by
    rw [r32_setStack, r32_setStack, (setStack_frame m v).2.2]
    split
    · rfl
    · rw [Nat.add_comm (m.r32 .esp / 65536 * 65536), Nat.add_mul_div_right _ _ (by decide),
        Nat.div_eq_of_lt (Nat.mod_lt _ (by decide)), Nat.zero_add]
  simp only [resumed, segPhys_setStack, stackOffset_setStack, (setStack_frame m v).1, hw, hv, hesp]

/-- The frame laid below the interrupted stack pointer is popped as it was laid, and the pop
    puts the stack pointer back. -/
theorem resumed_layIretd {m : Machine} {f : Interrupted} (hf : f.Fits) (hss : m.segVal .ss = f.ss)
    (hfits : m.cpu.stackBig = true ∨ (12 ≤ f.esp ∧ f.esp < 65536 ∧ m.r32 .esp < 65536)) :
    resumed (layIretd m (lin (f.esp + 4294967284)) f.eip f.cs f.eflags) = f.context := by
  have hesp := hf.esp
  -- both widths pop at the addresses the frame was laid at, and end at the interrupted ESP
  have hpop : ∀ k ≤ 8, lin (m.segPhys .ss + wrapStack m (wrapStack m (lin (f.esp + 4294967284)) + k)) =
      lin (m.segPhys .ss + lin (f.esp + 4294967284) + k) := by
    intro k hk
    unfold wrapStack
    rcases hfits with hbig | ⟨h₁, h₂, -⟩
    · simp only [hbig, if_true, lin]
      omega
    · split
      · simp only [lin]
        omega
      · have hn : lin (f.esp + 4294967284) = f.esp - 12 := by
          simp only [lin]
          omega
        rw [hn, show ((f.esp - 12) % 65536 + k) % 65536 = f.esp - 12 + k by omega, Nat.add_assoc]
  have hend : (if m.cpu.stackBig then lin (wrapStack m (lin (f.esp + 4294967284)) + 12)
      else m.r32 .esp / 65536 * 65536 + (wrapStack m (lin (f.esp + 4294967284)) + 12) % 65536) =
      f.esp := by
    unfold wrapStack
    split
    · simp only [lin]
      omega
    · obtain ⟨h₁, h₂, h₃⟩ := hfits.resolve_left ‹_›
      simp only [lin]
      omega
  obtain ⟨hx, hy, hz⟩ := readd_three m.mem (m.segPhys .ss + lin (f.esp + 4294967284)) f.eip f.cs
    f.eflags hf.eip hf.cs hf.eflags
  have h₀ := hpop 0 (by decide)
  have h₄ := hpop 4 (by decide)
  have h₈ := hpop 8 (by decide)
  rw [Nat.add_zero (m.segPhys .ss + lin (f.esp + 4294967284))] at h₀
  unfold layIretd
  rw [resumed_setStack]
  have hwrap : ∀ (mem : Mem) (v : Nat), wrapStack { m with mem := mem } v = wrapStack m v :=
    fun _ _ => rfl
  have hphys : ∀ mem : Mem, ({ m with mem := mem } : Machine).segPhys .ss = m.segPhys .ss :=
    fun _ => rfl
  simp only [hwrap, hphys, h₀, h₄, h₈, hx, hy, hz]
  exact congrArg₂ (Context.mk _ _ _) hss hend

theorem pmExcRet_resumes {eng : Engine} {m : Machine} {f : Interrupted}
    (hframe : FrameOf m.mem m.stubs.pmExcRet f) (hf : f.Fits) (hat : AtFrame m)
    (hr : Resumable eng m f) :
    farTarget m = (m.stubs.pmExcRet % 4294967296, PM_CB3_SEL) ∧
      resumed (pmExcRet eng (farReturn m)) = f.context := by
  obtain ⟨h₀, h₁, h₃, h₄, h₅, h₆, h₇⟩ := frameOf_fields hframe hf
  refine ⟨?_, ?_⟩
  · simp only [farTarget, hat.base, hat.top]
    exact Prod.ext h₀ ((congrArg (· % 65536) h₁).trans rfl)
  · have hoff : stackOffset (farReturn m) = PM_CB_STACK_SIZE - 24 := by
      rw [farReturn, stackOffset_setStack, hat.top, wrapStack]
      split <;> rfl
    have hbase : (farReturn m).segPhys .ss = PM_EXC_STACK_BASE := by
      rw [farReturn, segPhys_setStack, hat.base]
    have hret : pmExcRet eng (farReturn m) =
        layIretd (cpuSetSegGeneral eng (farReturn m) .ss f.ss) (lin (f.esp + 4294967284)) f.eip f.cs
          f.eflags := by
      unfold pmExcRet
      simp only [hoff, hbase, farReturn_mem]
      rw [show lin (PM_EXC_STACK_BASE + (PM_CB_STACK_SIZE - 24) + 4) = EXC_FRAME + 12 from rfl,
        show lin (PM_EXC_STACK_BASE + (PM_CB_STACK_SIZE - 24) + 8) = EXC_FRAME + 16 from rfl,
        show lin (PM_EXC_STACK_BASE + (PM_CB_STACK_SIZE - 24) + 12) = EXC_FRAME + 20 from rfl,
        show lin (PM_EXC_STACK_BASE + (PM_CB_STACK_SIZE - 24) + 16) = EXC_FRAME + 24 from rfl,
        show lin (PM_EXC_STACK_BASE + (PM_CB_STACK_SIZE - 24) + 20) = EXC_FRAME + 28 from rfl,
        h₃, h₄, h₅, h₆, h₇, Nat.mod_eq_of_lt hf.ss]
    rw [hret]
    refine resumed_layIretd hf ?_ ?_
    · have hl := hr.loads
      rw [← farReturn_mem] at hl
      simpa [cpuSetSegGeneral, mirrorSeg, segVal] using hl
    · refine hr.fits.imp (fun hbig => ?_) fun ⟨ha, hb, hc⟩ => ⟨ha, hb, ?_⟩
      · rw [← farReturn_mem] at hbig
        simpa [cpuSetSegGeneral, mirrorSeg] using hbig
      · show (farReturn m).r32 .esp < 65536
        rw [farReturn, r32_setStack, hat.top]
        split
        · decide
        · rw [Nat.div_eq_of_lt hc]
          decide

/-! ### Histories of faults

A state of a history keeps, beside the machine, the faults whose handlers have not returned
(innermost first) and what the private frame holds: the last fault dispatched, as long as no
byte of the frame has changed since. -/

structure ExcState where
  m : Machine
  pending : List Interrupted
  held : Option Interrupted

/-- No fault has been dispatched. -/
def ExcState.start (m : Machine) : ExcState := ⟨m, [], none⟩

/-- The private frame is the same in both memories. -/
def FrameKept (mem mem' : Mem) : Prop := ∀ i < 32, mem' (EXC_FRAME + i) = mem (EXC_FRAME + i)

instance (mem mem' : Mem) : Decidable (FrameKept mem mem') :=
  inferInstanceAs (Decidable (∀ i < 32, mem' (EXC_FRAME + i) = mem (EXC_FRAME + i)))

/-- What the frame holds once the memory is `mem'`. -/
def ExcState.heldIn (s : ExcState) (mem' : Mem) : Option Interrupted :=
  if FrameKept s.m.mem mem' then s.held else none

/-- What happens in a history: anything else the guest, the CPU and the host do, a dispatched
    fault, a handler's far return. -/
inductive ExcEvent where
  | other (m' : Machine)
  | fault (vec : Nat)
  | ret

def excStep (eng : Engine) (s : ExcState) (e : ExcEvent) (s' : ExcState) : Prop :=
  match e with
  | .other m' => m'.stubs = s.m.stubs ∧ s' = ⟨m', s.pending, s.heldIn m'.mem⟩
  | .fault vec =>
    FromRing3 s.m vec ∧ (pmExcDispatch s.m vec).2 = false ∧
      s' = ⟨(pmExcDispatch s.m vec).1, pushedFrame s.m vec :: s.pending, some (pushedFrame s.m vec)⟩
  | .ret =>
    s.pending ≠ [] ∧ AtFrame s.m ∧
      s' = ⟨pmExcRet eng (farReturn s.m), s.pending.tail,
        s.heldIn (pmExcRet eng (farReturn s.m)).mem⟩

/-- What `held` claims of the frame is so. -/
def HeldFrame (s : ExcState) : Prop :=
  ∀ f ∈ s.held, FrameOf s.m.mem s.m.stubs.pmExcRet f ∧ f.Fits

theorem pushedFrame_fits (m : Machine) (vec : Nat) : (pushedFrame m vec).Fits := by
  obtain ⟨-, heip, hcs, hflags, hesp, hss⟩ := pushedFrame_lt m vec
  exact ⟨heip, hcs, hflags, hesp, hss⟩

theorem FrameOf.kept {mem mem' : Mem} {ret : Nat} {f : Interrupted} (h : FrameOf mem ret f)
    (hk : FrameKept mem mem') : FrameOf mem' ret f := by
  intro i hi
  have hi8 : i < 8 := hi
  have hbyte : ∀ k < 4, readb mem' (EXC_FRAME + 4 * i + k) = readb mem (EXC_FRAME + 4 * i + k) := by
    intro k hk4
    rw [readb, readb, Nat.add_assoc, hk (4 * i + k) (by omega)]
  have h₀ := hbyte 0 (by decide)
  have h₁ := hbyte 1 (by decide)
  have h₂ := hbyte 2 (by decide)
  have h₃ := hbyte 3 (by decide)
  rw [← h i hi]
  simp only [readd, readw, Nat.add_zero, Nat.add_assoc, Nat.reduceAdd] at h₀ h₁ h₂ h₃ ⊢
  rw [h₀, h₁, h₂, h₃]

theorem heldFrame_heldIn {s : ExcState} (h : HeldFrame s) {m' : Machine}
    (hstubs : m'.stubs = s.m.stubs) (ps : List Interrupted) :
    HeldFrame ⟨m', ps, s.heldIn m'.mem⟩ := by
  intro f hf
  simp only [ExcState.heldIn] at hf
  split at hf
  · obtain ⟨hframe, hfits⟩ := h f hf
    exact ⟨hstubs ▸ hframe.kept ‹_›, hfits⟩
  · simp at hf

theorem pmExcDispatch_stubs (m : Machine) (vec : Nat) :
    (pmExcDispatch m vec).1.stubs = m.stubs := by
  have hguard : ∀ cs eip, (faultGuard m cs eip).1.stubs = m.stubs := by
    intro cs eip
    unfold faultGuard
    split <;> rfl
  have henter : ∀ (m : Machine) f, (enterHandler m vec f).stubs = m.stubs := by
    intro m f
    unfold enterHandler
    dsimp only
    split <;> rfl
  unfold pmExcDispatch
  dsimp only
  generalize (if pmExcHasErrCode vec = true then 8 else 4) = csOff
  split_ifs
  · rfl
  · exact hguard _ _
  · exact hguard _ _
  · rw [henter, hguard]

theorem pmExcRet_stubs (eng : Engine) (m : Machine) : (pmExcRet eng m).stubs = m.stubs := by
  unfold pmExcRet layIretd setStack
  dsimp only
  split <;> rfl

/-- Each step keeps `held` true: a dispatch writes the frame, everything else leaves it or
    gives it up. -/
theorem excStep_heldFrame {eng : Engine} {s s' : ExcState} {e : ExcEvent} (h : HeldFrame s)
    (he : excStep eng s e s') : HeldFrame s' := by
  cases e with
  | other m' =>
    obtain ⟨hstubs, rfl⟩ := he
    exact heldFrame_heldIn h hstubs _
  | fault vec =>
    obtain ⟨hfrom, hgo, rfl⟩ := he
    intro f hf
    obtain rfl : pushedFrame s.m vec = f := by simpa using hf
    refine ⟨?_, pushedFrame_fits _ _⟩
    rw [show (pmExcDispatch s.m vec).1.stubs.pmExcRet = s.m.stubs.pmExcRet by
      rw [pmExcDispatch_stubs]]
    exact pmExcDispatch_frame hfrom hgo
  | ret =>
    obtain ⟨-, -, rfl⟩ := he
    refine heldFrame_heldIn h ?_ _
    rw [pmExcRet_stubs, farReturn]
    unfold setStack
    split <;> rfl

theorem run_heldFrame {eng : Engine} {m₀ : Machine} {es : List ExcEvent} {s : ExcState}
    (hrun : Run (excStep eng) (.start m₀) es s) : HeldFrame s :=
  hrun.invariant (fun _ _ _ => excStep_heldFrame) (by simp [HeldFrame, ExcState.start])

/-- In every history, a handler that returns with the frame intact resumes what the fault
    dispatched last interrupted: its own fault's context exactly when the two are the same. -/
theorem pmExc_resumes_iff {eng : Engine} {m₀ : Machine} {es : List ExcEvent} {s : ExcState}
    {f : Interrupted} (hrun : Run (excStep eng) (.start m₀) es s) (hheld : s.held = some f)
    (hat : AtFrame s.m) (hr : Resumable eng s.m f) :
    farTarget s.m = (s.m.stubs.pmExcRet % 4294967296, PM_CB3_SEL) ∧
      ∀ c ∈ s.pending.head?,
        (resumed (pmExcRet eng (farReturn s.m)) = c.context ↔ f.context = c.context) := by
  obtain ⟨hframe, hfits⟩ := run_heldFrame hrun f hheld
  obtain ⟨htarget, hres⟩ := pmExcRet_resumes hframe hfits hat hr
  exact ⟨htarget, fun c _ => by rw [hres]⟩

/-! ### Two faults

A page fault of a client, and a fault of its handler before it returns. -/

/-- The stub at 2000h of `CB_SEG`, a handler at 0F:5000 for every vector, descriptors for the
    client's stack and the private one. -/
def excBoot : Machine :=
  { bootMachine with
    mem := writeLdtDescriptor (writeGdtDescriptor bootMachine.mem 15 PM_EXC_STACK_BASE 0xFFF 0xF2 true)
      3 0x200000 0xFFFF 0xF2 true
    pmExc := fun _ => ⟨0x0F, 0x5000⟩
    stubs := { bootMachine.stubs with pmExcRet := 0x2000 } }

/-- The CPU on the 32-bit stack segment `sel` with this base, at `esp`. -/
def onStack (m : Machine) (sel base esp : Nat) : Machine :=
  ({ m with cpu := { m.cpu with
      segs := Function.update m.cpu.segs .ss ⟨BitVec.ofNat 16 sel, BitVec.ofNat 32 base⟩
      stackBig := true } }).setR32 .esp esp

/-- The CPU has pushed `f`, with its error code, on the ring-0 stack. -/
def pushed (m : Machine) (f : Interrupted) : Machine :=
  let frame := [f.err, f.eip, f.cs, f.eflags, f.esp, f.ss]
  onStack { m with mem := storeDwords m.mem (PM_CB_STACK_BASE + 0xFE8) frame }
    PM_CB_STACK PM_CB_STACK_BASE 0xFE8

def outerFault : Interrupted := ⟨4, 0x1234, 0x0F, 0x3202, 0x8000, 0x1F⟩

def innerFault : Interrupted := ⟨0, 0x5010, 0x0F, 0x3002, 0xFC0, PM_EXC_STACK_SEL⟩

/-- After the fault `f` of vector `vec`. -/
def dispatched (s : ExcState) (f : Interrupted) (vec : Nat) : ExcState :=
  ⟨(pmExcDispatch (pushed s.m f) vec).1, pushedFrame (pushed s.m f) vec :: s.pending,
    some (pushedFrame (pushed s.m f) vec)⟩

/-- The handler has done its work: its stack is at its frame. -/
def atReturn (s : ExcState) : ExcState :=
  { s with m := onStack s.m PM_EXC_STACK_SEL PM_EXC_STACK_BASE 0xFE0 }

/-- After that handler's far return. -/
def returned (s : ExcState) : ExcState :=
  ⟨pmExcRet tableEngine (farReturn (atReturn s).m), s.pending.tail,
    (atReturn s).heldIn (pmExcRet tableEngine (farReturn (atReturn s).m)).mem⟩

theorem heldIn_self (s : ExcState) (m' : Machine) (h : m'.mem = s.m.mem) :
    s.heldIn m'.mem = s.held := by
  rw [ExcState.heldIn, if_pos (show FrameKept _ _ from fun i _ => by rw [h])]

theorem run_dispatched {s : ExcState} {f : Interrupted} {vec : Nat}
    (hfrom : FromRing3 (pushed s.m f) vec) (hgo : (pmExcDispatch (pushed s.m f) vec).2 = false) :
    Run (excStep tableEngine) s [.other (pushed s.m f), .fault vec] (dispatched s f vec) :=
  .cons ⟨rfl, rfl⟩ (.single ⟨hfrom, hgo, rfl⟩)

theorem step_atReturn (s : ExcState) :
    excStep tableEngine s (.other (atReturn s).m) (atReturn s) :=
  ⟨rfl, congrArg (ExcState.mk _ _) (heldIn_self s (atReturn s).m rfl).symm⟩

theorem run_returned {s : ExcState} (h : s.pending ≠ []) (hat : AtFrame (atReturn s).m) :
    Run (excStep tableEngine) s [.other (atReturn s).m, .ret] (returned s) :=
  .cons (step_atReturn s) (.single ⟨h, hat, rfl⟩)

theorem fromRing3_pushed (m : Machine) {f : Interrupted} {vec : Nat}
    (hrpl : (pushedFrame (pushed m f) vec).cs % 4 = 3) : FromRing3 (pushed m f) vec :=
  ⟨show 0x108000 ≤ 0x108000 + 0xFE8 by decide, show 0x108000 + 0xFE8 + 24 ≤ 0x109000 by decide, hrpl⟩

theorem atFrame_atReturn (s : ExcState) : AtFrame (atReturn s).m := ⟨rfl, rfl⟩

theorem run_outer :
    Run (excStep tableEngine) (.start excBoot)
      [.other (pushed excBoot outerFault), .fault 14] (dispatched (.start excBoot) outerFault 14) :=
  run_dispatched (s := .start excBoot) (fromRing3_pushed _ (by decide +kernel)) (by decide +kernel)

/-- The page fault's handler returns to the client. -/
theorem pmExc_resumes_iff_page :
    resumed (pmExcRet tableEngine (farReturn (atReturn (dispatched (.start excBoot) outerFault 14)).m)) =
      outerFault.context :=
  ((pmExc_resumes_iff (run_outer.append (.single (step_atReturn _)))
    (f := outerFault) (by decide +kernel) (atFrame_atReturn _)
    ⟨by decide +kernel, Or.inl (by decide +kernel)⟩).2 outerFault (by decide +kernel)).mpr rfl

theorem run_inner :
    Run (excStep tableEngine) (dispatched (.start excBoot) outerFault 14)
      [.other (pushed (dispatched (.start excBoot) outerFault 14).m innerFault), .fault 13]
      (dispatched (dispatched (.start excBoot) outerFault 14) innerFault 13) :=
  run_dispatched (fromRing3_pushed _ (by decide +kernel)) (by decide +kernel)

/-- The handler of the page fault faults; the fault inside is handled and its handler returns;
    then the outer handler, its frame as it was when it last ran, returns where the inner
    fault was. -/
theorem pmExc_nested_lost :
    ∃ es s, Run (excStep tableEngine) (.start excBoot) es s ∧ s.pending = [outerFault] ∧
      AtFrame s.m ∧ Resumable tableEngine s.m outerFault ∧
      resumed (pmExcRet tableEngine (farReturn s.m)) = innerFault.context ∧
      resumed (pmExcRet tableEngine (farReturn s.m)) ≠ outerFault.context :=
  ⟨_, atReturn (returned (dispatched (dispatched (.start excBoot) outerFault 14) innerFault 13)),
    ((run_outer.append run_inner).append (run_returned (by decide +kernel) (atFrame_atReturn _))).append
      (.single (step_atReturn _)),
    by decide +kernel, atFrame_atReturn _, ⟨by decide +kernel, Or.inl (by decide +kernel)⟩,
    by decide +kernel, by decide +kernel⟩

end Dosiz.PmException
