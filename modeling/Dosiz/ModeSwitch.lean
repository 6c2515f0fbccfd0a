/-
  Dosiz/ModeSwitch.lean
  =====================
  **What a caller of AX=0300, AX=0301 and AX=0302 gets back.**

  The three services share one round trip to real mode.  AX=0300 puts a selector whose descriptor
  is no longer present back without a load; AX=0301 and AX=0302 load every selector again.  And
  AX=0302 runs the loop itself and leaves EIP in the stop callback, whose return pops a 16-bit
  frame.  `realMode_kept_iff`: the caller goes on as it was exactly when no load raises an
  exception and, for AX=0302, its gate is a 16-bit one.
-/
import Dosiz.CallbackReturn
import Dosiz.Gates

namespace Dosiz.Nesting

open ByteMemory Machine Transition

/-! ### Loads that raise an exception -/

/-- The checks of a segment load, on the memory, the descriptor's address, the segment register,
    the CPL and the selector; `true` is an exception. -/
abbrev LoadCheck := Mem → Option Nat → SegName → Nat → Nat → Bool

def LoadCheck.raises (check : LoadCheck) (m : Machine) (s : SegName) (sel : Nat) : Bool :=
  check m.mem (getDescriptor m sel) s m.cpu.cpl sel

/-- A load that raises no exception leaves the selector in the register. -/
def LoadsSelector (eng : Engine) (check : LoadCheck) : Prop :=
  ∀ (m : Machine) (s : SegName) (sel : Nat), check.raises m s sel = false →
    (eng.loadSegment m.mem m.cpu s sel).1.val = BitVec.ofNat 16 sel

/-- #NP: the load of a descriptor that is not present raises an exception. -/
def LoadCheck.RaisesNp (check : LoadCheck) : Prop :=
  ∀ mem p s cpl sel, sel / 4 % 16384 ≠ 0 → descPresent mem p = false → check mem (some p) s cpl sel = true

/-- The selector's descriptor is not present, as `restore_seg` looks at it. -/
def notPresent (m : Machine) (sel : Nat) : Bool :=
  sel ≠ 0 ∧ (getDescriptor m sel).any fun p => !descPresent m.mem p

/-- The data segments that only AX=0300 spares. -/
def spared : List SegName := [.ds, .es, .fs, .gs]

/-- The registers that `reloadSelectors` gives to `CPU_SetSegGeneral`.  No load changes what it
    depends on: memory, the tables and the CPL. -/
def loaded (svc : RmService) (segs : SegName → Nat) (m : Machine) : List SegName :=
  match svc with
  | .simulateInt => .ss :: spared.filter fun s => !notPresent m (segs s)
  | .callFar | .callIret => [.ds, .ss, .es, .fs, .gs]

/-- Every selector can be put back: SS is loaded, and each data segment is loaded or, by AX=0300,
    spared. -/
def Reloadable (check : LoadCheck) (svc : RmService) (segs : SegName → Nat) (m : Machine) : Prop :=
  check.raises m .ss (segs .ss) = false ∧
    ∀ s ∈ spared, check.raises m s (segs s) = false ∨ svc = .simulateInt ∧ notPresent m (segs s) = true

theorem reloadable_iff (check : LoadCheck) (svc : RmService) (segs : SegName → Nat) (m : Machine) :
    Reloadable check svc segs m ↔ ∀ s ∈ loaded svc segs m, check.raises m s (segs s) = false := by
  have hfive : (check.raises m .ss (segs .ss) = false ∧ ∀ s ∈ spared, check.raises m s (segs s) = false) ↔
      ∀ s ∈ [SegName.ds, .ss, .es, .fs, .gs], check.raises m s (segs s) = false := by
    simp only [spared, List.forall_mem_cons]
    exact and_left_comm
  unfold Reloadable loaded
  cases svc with
  | simulateInt =>
    simp only [List.forall_mem_cons, List.mem_filter, true_and]
    refine and_congr_right fun _ => forall_congr' fun s => ?_
    cases notPresent m (segs s) <;> simp
  | callFar =>
    rw [← hfive]
    simp
  | callIret =>
    rw [← hfive]
    simp

/-! ### The loads -/

/-- Loads of data and stack segments. -/
structure DataLoads (q w : Machine) : Prop where
  mem : w.mem = q.mem
  cpu : w.cpu = { q.cpu with
    segs := w.cpu.segs
    stackBig := w.cpu.stackBig }

theorem DataLoads.refl (q : Machine) : DataLoads q q := ⟨rfl, rfl⟩

theorem DataLoads.trans {q w u : Machine} (h₁ : DataLoads q w) (h₂ : DataLoads w u) : DataLoads q u := by
  refine ⟨h₂.mem.trans h₁.mem, h₂.cpu.trans ?_⟩
  rw [h₁.cpu]

theorem DataLoads.getDescriptor {q w : Machine} (h : DataLoads q w) (sel : Nat) :
    Dosiz.getDescriptor w sel = Dosiz.getDescriptor q sel := by
  unfold Dosiz.getDescriptor
  rw [h.cpu]

theorem DataLoads.raises {q w : Machine} (h : DataLoads q w) (check : LoadCheck) (s : SegName) (sel : Nat) :
    check.raises w s sel = check.raises q s sel := by
  unfold LoadCheck.raises
  rw [h.getDescriptor, h.mem, h.cpu]

theorem DataLoads.notPresent {q w : Machine} (h : DataLoads q w) (sel : Nat) :
    Nesting.notPresent w sel = Nesting.notPresent q sel := by
  unfold Nesting.notPresent
  rw [h.getDescriptor, h.mem]

section Loads

variable {eng : Engine} {check : LoadCheck} {svc : RmService} {segs : SegName → Nat} {q : Machine}

theorem dataLoads_cpuSetSegGeneral (q : Machine) {s : SegName} (hs : s ≠ .cs) (v : Nat) :
    DataLoads q (cpuSetSegGeneral eng q s v) := by
  refine ⟨rfl, ?_⟩
  unfold cpuSetSegGeneral mirrorSeg
  dsimp only
  rw [if_neg hs]

theorem dataLoads_restoreSeg (q : Machine) {s : SegName} (hs : s ≠ .cs) (v : Nat) :
    DataLoads q (restoreSeg eng q s v) := by
  unfold restoreSeg
  split
  · exact ⟨rfl, rfl⟩
  · exact dataLoads_cpuSetSegGeneral q hs v

theorem dataLoads_foldl {f : Machine → SegName → Machine} {l : List SegName}
    (hf : ∀ s ∈ l, ∀ q, DataLoads q (f q s)) (q : Machine) : DataLoads q (l.foldl f q) := by
  induction l generalizing q with
  | nil => exact .refl q
  | cons s l ih =>
    exact (hf s List.mem_cons_self q).trans (ih (fun t ht => hf t (List.mem_cons_of_mem s ht)) _)

theorem spared_ne_cs : ∀ s ∈ spared, s ≠ .cs := by decide

theorem dataLoads_reloadSelectors (svc : RmService) (segs : SegName → Nat) (q : Machine) :
    DataLoads q (reloadSelectors eng svc segs q) := by
  have hne : ∀ s ∈ [SegName.ds, .ss, .es, .fs, .gs], s ≠ .cs := by decide
  unfold reloadSelectors
  cases svc with
  | simulateInt =>
    exact (dataLoads_cpuSetSegGeneral q (by decide) _).trans
      (dataLoads_foldl (l := spared) (fun s hs q => dataLoads_restoreSeg q (spared_ne_cs s hs) _) _)
  | callFar => exact dataLoads_foldl (fun s hs q => dataLoads_cpuSetSegGeneral q (hne s hs) _) q
  | callIret => exact dataLoads_foldl (fun s hs q => dataLoads_cpuSetSegGeneral q (hne s hs) _) q

/-- A fold that puts one register after the other back. -/
theorem selectors_foldl {f : Machine → SegName → Machine} {l : List SegName} (hnodup : l.Nodup)
    (hf : ∀ s ∈ l, ∀ w, DataLoads q w → DataLoads w (f w s) ∧ (f w s).segVal s = segs s ∧
      ∀ t, t ≠ s → (f w s).segVal t = w.segVal t) :
    ∀ w, DataLoads q w → (∀ s ∈ l, (l.foldl f w).segVal s = segs s) ∧
      ∀ t, t ∉ l → (l.foldl f w).segVal t = w.segVal t := by
  induction l with
  | nil => exact fun w _ => ⟨fun s hs => absurd hs List.not_mem_nil, fun t _ => rfl⟩
  | cons s l ih =>
    intro w hw
    obtain ⟨hs, hl⟩ := List.nodup_cons.1 hnodup
    obtain ⟨hload, hval, hother⟩ := hf s List.mem_cons_self w hw
    obtain ⟨hin, hout⟩ := ih hl (fun t ht => hf t (List.mem_cons_of_mem s ht)) _ (hw.trans hload)
    refine ⟨fun t ht => ?_, fun t ht => ?_⟩
    · rcases List.mem_cons.1 ht with rfl | ht
      · exact (hout t hs).trans hval
      · exact hin t ht
    · rw [List.mem_cons, not_or] at ht
      exact (hout t ht.2).trans (hother t ht.1)

theorem segVal_mirrorSeg (w : Machine) (s : SegName) (r : SegReg × Bool) :
    (mirrorSeg w s r).segVal s = r.1.val.toNat ∧ ∀ t, t ≠ s → (mirrorSeg w s r).segVal t = w.segVal t := by
  refine ⟨?_, fun t ht => ?_⟩
  · show (Function.update w.cpu.segs s r.1 s).val.toNat = _
    rw [Function.update_self]
  · show (Function.update w.cpu.segs s r.1 t).val.toNat = _
    rw [Function.update_of_ne ht]
    rfl

theorem cpuSetSegGeneral_segVal (heng : LoadsSelector eng check) {w : Machine} {s : SegName} {v : Nat}
    (hv : v < 65536) (h : check.raises w s v = false) : (cpuSetSegGeneral eng w s v).segVal s = v ∧
      ∀ t, t ≠ s → (cpuSetSegGeneral eng w s v).segVal t = w.segVal t := by
  obtain ⟨hself, hother⟩ := segVal_mirrorSeg w s (eng.loadSegment w.mem w.cpu s v)
  refine ⟨hself.trans ?_, hother⟩
  rw [heng w s v h, BitVec.toNat_ofNat]
  exact Nat.mod_eq_of_lt hv

theorem restoreSeg_segVal (heng : LoadsSelector eng check) {w : Machine} {s : SegName} {v : Nat}
    (hv : v < 65536) (h : check.raises w s v = false ∨ notPresent w v = true) :
    (restoreSeg eng w s v).segVal s = v ∧ ∀ t, t ≠ s → (restoreSeg eng w s v).segVal t = w.segVal t := by
  unfold restoreSeg
  split
  · refine ⟨?_, fun t ht => ?_⟩
    · show (Function.update w.cpu.segs s _ s).val.toNat = v
      rw [Function.update_self]
      show (BitVec.ofNat 16 v).toNat = v
      rw [BitVec.toNat_ofNat]
      exact Nat.mod_eq_of_lt hv
    · show (Function.update w.cpu.segs s _ t).val.toNat = _
      rw [Function.update_of_ne ht]
      rfl
  · rename_i hp
    rcases h with h | h
    · exact cpuSetSegGeneral_segVal heng hv h
    · exact absurd (of_decide_eq_true h) hp

/-- The selectors after the reload. -/
theorem reloadSelectors_segVal (heng : LoadsSelector eng check) (hsegs : ∀ s, segs s < 65536)
    (h : Reloadable check svc segs q) {s : SegName} (hs : s ≠ .cs) :
    (reloadSelectors eng svc segs q).segVal s = segs s := by
  have hrest : ∀ t ∈ spared, ∀ w, DataLoads q w →
      check.raises w t (segs t) = false ∨ svc = .simulateInt ∧ notPresent w (segs t) = true := by
    intro t ht w hw
    rw [hw.raises, hw.notPresent]
    exact h.2 t ht
  have hfive : svc ≠ .simulateInt → ([SegName.ds, .ss, .es, .fs, .gs].foldl
      (fun m s => cpuSetSegGeneral eng m s (segs s)) q).segVal s = segs s := by
    intro hsvc
    have hall : ∀ t ∈ [SegName.ds, .ss, .es, .fs, .gs], t = .ss ∨ t ∈ spared := by decide
    have hne : ∀ t ∈ [SegName.ds, .ss, .es, .fs, .gs], t ≠ .cs := by decide
    have hmem : s ∈ [SegName.ds, .ss, .es, .fs, .gs] := by
      revert hs
      cases s <;> decide
    refine (selectors_foldl (by decide) (fun t ht w hw => ?_) q (.refl q)).1 s hmem
    have hload : check.raises w t (segs t) = false := by
      rcases hall t ht with rfl | ht
      · rw [hw.raises]
        exact h.1
      · exact (hrest t ht w hw).resolve_right fun hsim => hsvc hsim.1
    obtain ⟨hself, hother⟩ := cpuSetSegGeneral_segVal heng (hsegs t) hload
    exact ⟨dataLoads_cpuSetSegGeneral w (hne t ht) _, hself, hother⟩
  unfold reloadSelectors
  cases svc with
  | simulateInt =>
    have hss : DataLoads q (cpuSetSegGeneral eng q .ss (segs .ss)) := dataLoads_cpuSetSegGeneral q (by decide) _
    have hput : ∀ t ∈ spared, ∀ w, DataLoads q w → DataLoads w (restoreSeg eng w t (segs t)) ∧
        (restoreSeg eng w t (segs t)).segVal t = segs t ∧
        ∀ u, u ≠ t → (restoreSeg eng w t (segs t)).segVal u = w.segVal u := by
      intro t ht w hw
      exact ⟨dataLoads_restoreSeg w (spared_ne_cs t ht) _,
        restoreSeg_segVal heng (hsegs t) ((hrest t ht w hw).imp_right And.right)⟩
    obtain ⟨hin, hout⟩ := selectors_foldl (by decide) hput _ hss
    by_cases hs' : s = .ss
    · subst hs'
      exact (hout .ss (by decide)).trans (cpuSetSegGeneral_segVal heng (hsegs _) h.1).1
    · have hmem : s ∈ spared := by
        revert hs hs'
        cases s <;> decide
      exact hin s hmem
  | callFar => exact hfive (by decide)
  | callIret => exact hfive (by decide)

end Loads

/-! ### The second half -/

/-- The stub whose native call ends before `eip`: INT 31h for a 32-bit gate and for a 16-bit one, and
    the stop callback. -/
def stubBefore (s : Stubs) (eip : Nat) : Option Gates.StubType :=
  if eip = s.int31Cb32 + 4 then some .CB_IRETD
  else if eip = s.int31Cb + 4 ∨ eip = s.rmStopPtr % 65536 + 4 then some .CB_IRET
  else none

/-- The operand size of the interrupt return at `eip`. -/
def returnAt (s : Stubs) (eip : Nat) : Option Nat :=
  (stubBefore s eip).bind fun t => Gates.returnSize (Gates.writeStub 0 t)

/-- The size of the frame the caller's gate has pushed. -/
def frameSize (m : Machine) : Nat := if m.intGateBits32 then 4 else 2

/-- The service is called through the stub of the caller's gate; the stubs are apart. -/
structure ThroughGate (m : Machine) : Prop where
  eip : m.cpu.eip.toNat = (if m.intGateBits32 then m.stubs.int31Cb32 else m.stubs.int31Cb) + 4
  apart : m.stubs.int31Cb32 ≠ m.stubs.int31Cb
  stopApart : m.stubs.int31Cb32 ≠ m.stubs.rmStopPtr % 65536

/-- The real-mode routine has come back as `m'`: no child has exited inside AX=0300, and the IRET
    of AX=0302 has led to the stop callback. -/
structure RoutineReturned (svc : RmService) (m m' : Machine) : Prop where
  pending : svc = .simulateInt → m'.childExitPending = false
  stopped : svc = .callIret → m'.cpu.eip.toNat = m.stubs.rmStopPtr % 65536 + 4

/-- The caller of the service, in state `s` at the call, goes on in `s'` as it was; `m'` is the
    machine at the routine's return. -/
structure CallerKept (check : LoadCheck) (svc : RmService) (s : State) (m' : Machine) (s' : State) : Prop where
  unraised : ∀ r ∈ loaded svc s.m.segVal m', check.raises m' r (s.m.segVal r) = false
  returns : returnAt s.m.stubs s'.m.cpu.eip.toNat = some (frameSize s.m)
  levels : s'.levels = s.levels
  goesOn : s'.stop = false
  regs : s'.m.cpu.regs = s.m.cpu.regs
  selectors : ∀ r, s'.m.segVal r = s.m.segVal r
  cr0 : s'.m.cpu.cr0 = s.m.cpu.cr0
  idt : s'.m.cpu.idtBase = s.m.cpu.idtBase ∧ s'.m.cpu.idtLimit = s.m.cpu.idtLimit
  results : s'.m.mem = editFlag (writeRmcs m'.mem (saveRm s.m).rmcs m') (flagsAddr s'.m) 0x0001 false
  others : AgreesOff (fieldBytes rmcsResults (saveRm s.m).rmcs ∪ Set.Ico (flagsAddr s'.m) (flagsAddr s'.m + 2))
    m'.mem s'.m.mem

section Return

variable {eng : Engine} {check : LoadCheck} {svc : RmService} {saved : RmSaved} {m' : Machine}

/-- The machine at the end of `CALLBACK_RunRealInt`, of `CALLBACK_RunRealFar` or of the loop. -/
def routineEnd (eng : Engine) (svc : RmService) (saved : RmSaved) (m' : Machine) : Machine :=
  if svc = .callIret then m' else segSet16 eng (m'.setEip saved.eip) .cs (saved.segs .cs)

/-- The same machine back in protected mode. -/
def backInPm (eng : Engine) (svc : RmService) (saved : RmSaved) (m' : Machine) : Machine :=
  cpuLidt (cpuSetCr0 (routineEnd eng svc saved m') saved.cr0) saved.idtLimit saved.idtBase

theorem leaveRm_eq (h : svc = .simulateInt → m'.childExitPending = false) :
    leaveRm eng svc saved m' = (setCf (((refreshCs (reloadSelectors eng svc saved.segs
      (backInPm eng svc saved m')) (saved.segs .cs)).setRegs saved.regs).setMem (writeRmcs
        (reloadSelectors eng svc saved.segs (backInPm eng svc saved m')).mem saved.rmcs
        (routineEnd eng svc saved m'))) false, false) := by
  have hpend : ¬(svc = .simulateInt ∧ (routineEnd eng svc saved m').childExitPending = true) := by
    rintro ⟨hsvc, hpend⟩
    have hsame : (routineEnd eng svc saved m').childExitPending = m'.childExitPending := by
      unfold routineEnd
      split <;> rfl
    rw [hsame, h hsvc] at hpend
    exact Bool.false_ne_true hpend
  unfold leaveRm
  exact if_neg hpend

theorem routineEnd_same (eng : Engine) (svc : RmService) (saved : RmSaved) (m' : Machine) :
    let r := routineEnd eng svc saved m'
    r.mem = m'.mem ∧ r.cpu.regs = m'.cpu.regs ∧ r.cpu.flags = m'.cpu.flags ∧
      (∀ p ∈ rmcsSegs, r.segVal p.2 = m'.segVal p.2) ∧
      r.cpu.eip = if svc = .callIret then m'.cpu.eip else saved.eip := by
  have hne : ∀ p ∈ rmcsSegs, p.2 ≠ SegName.cs := by decide
  unfold routineEnd
  dsimp only
  split
  · exact ⟨rfl, rfl, rfl, fun _ _ => rfl, rfl⟩
  · exact ⟨rfl, rfl, rfl, fun p hp => (segVal_mirrorSeg _ .cs _).2 p.2 (hne p hp), rfl⟩

theorem backInPm_raises (s : SegName) (sel : Nat) :
    check.raises (backInPm eng svc saved m') s sel = check.raises m' s sel := by
  unfold backInPm routineEnd
  split <;> rfl

theorem backInPm_notPresent (sel : Nat) :
    notPresent (backInPm eng svc saved m') sel = notPresent m' sel := by
  unfold backInPm routineEnd
  split <;> rfl

theorem reloadable_backInPm {segs : SegName → Nat} (h : Reloadable check svc segs m') :
    Reloadable check svc segs (backInPm eng svc saved m') := by
  refine ⟨(backInPm_raises _ _).trans h.1, fun s hs => ?_⟩
  rw [backInPm_raises, backInPm_notPresent]
  exact h.2 s hs

theorem writeRmcs_congr {r m : Machine} (mem : Mem) (rmcs : Nat) (hregs : r.cpu.regs = m.cpu.regs)
    (hflags : r.cpu.flags = m.cpu.flags) (hsegs : ∀ p ∈ rmcsSegs, r.segVal p.2 = m.segVal p.2) :
    writeRmcs mem rmcs r = writeRmcs mem rmcs m := by
  unfold writeRmcs
  simp only [r32, hregs, hflags]
  exact List.foldl_ext _ _ _ fun mem p hp => by rw [hsegs p hp]

/-- What the second half leaves, whatever the loads do. -/
theorem leaveRm_frame (h : svc = .simulateInt → m'.childExitPending = false) :
    let r := (leaveRm eng svc saved m').1
    r.cpu.regs = saved.regs ∧ r.segVal .cs = saved.segs .cs % 65536 ∧
      (∀ t, t ≠ .cs → r.segVal t = (reloadSelectors eng svc saved.segs (backInPm eng svc saved m')).segVal t) ∧
      r.cpu.eip = (if svc = .callIret then m'.cpu.eip else saved.eip) ∧ r.cpu.cr0 = saved.cr0 ∧
      r.cpu.idtBase = saved.idtBase ∧ r.cpu.idtLimit = saved.idtLimit ∧
      r.mem = editFlag (writeRmcs m'.mem saved.rmcs m') (flagsAddr r) 0x0001 false := by
  have hload : DataLoads (backInPm eng svc saved m') (reloadSelectors eng svc saved.segs (backInPm eng svc saved m')) :=
    dataLoads_reloadSelectors svc saved.segs _
  obtain ⟨hmem, hregs, hflags, hsegs, heip⟩ := routineEnd_same eng svc saved m'
  rw [leaveRm_eq h]
  generalize reloadSelectors eng svc saved.segs (backInPm eng svc saved m') = w at hload
  have hwmem : w.mem = m'.mem := hload.mem.trans hmem
  have hres := writeRmcs_congr w.mem saved.rmcs hregs hflags hsegs
  rw [hwmem] at hres
  have hcpu := hload.cpu
  intro r
  refine ⟨rfl, BitVec.toNat_ofNat _ _, ?_, (congrArg Cpu.eip hcpu).trans heip, congrArg Cpu.cr0 hcpu,
    congrArg Cpu.idtBase hcpu, congrArg Cpu.idtLimit hcpu, ?_⟩
  · intro t ht
    show (Function.update w.cpu.segs .cs _ t).val.toNat = (w.cpu.segs t).val.toNat
    rw [Function.update_of_ne ht]
  · show editFlag (writeRmcs w.mem saved.rmcs (routineEnd eng svc saved m')) _ 0x0001 false = _
    rw [hwmem, hres]
    rfl

end Return

theorem returnAt_gate {m : Machine} (h : ThroughGate m) :
    returnAt m.stubs m.cpu.eip.toNat = some (frameSize m) := by
  have heip := h.eip
  unfold returnAt stubBefore frameSize
  cases hbits : m.intGateBits32 with
  | true =>
    rw [hbits, if_pos rfl] at heip
    rw [if_pos heip]
    rfl
  | false =>
    rw [hbits, if_neg Bool.false_ne_true] at heip
    have hne : ¬m.cpu.eip.toNat = m.stubs.int31Cb32 + 4 := by
      have := h.apart
      omega
    rw [if_neg hne, if_pos (.inl heip)]
    rfl

theorem returnAt_stop {m : Machine} (h : ThroughGate m) :
    returnAt m.stubs (m.stubs.rmStopPtr % 65536 + 4) = some (frameSize m) ↔ m.intGateBits32 = false := by
  have hne : ¬m.stubs.rmStopPtr % 65536 + 4 = m.stubs.int31Cb32 + 4 := by
    have := h.stopApart
    omega
  have hstop : returnAt m.stubs (m.stubs.rmStopPtr % 65536 + 4) = some 2 := by
    unfold returnAt stubBefore
    rw [if_neg hne, if_pos (.inr rfl)]
    rfl
  rw [hstop]
  unfold frameSize
  cases m.intGateBits32 <;> decide

/-- **AX=0300, AX=0301 and AX=0302.**  The caller goes on as it was exactly when its selectors can be
    put back and, for AX=0302, the call came through a 16-bit gate.  After AX=0301 and AX=0302 no
    selector may be without a present descriptor. -/
theorem realMode_kept_iff {eng : Engine} {check : LoadCheck} (heng : LoadsSelector eng check)
    (hnp : check.RaisesNp) {svc : RmService} {s s₁ s₂ s₃ s₄ : State} (hgate : ThroughGate s.m)
    (h₁ : step eng s (.enterRm svc) s₁) (hl : s₂.levels = s₁.levels) (hret : RoutineReturned svc s.m s₂.m)
    (h₂ : step eng s₂ .stopCallback s₃) (h₃ : step eng s₃ .unwind s₄) :
    (CallerKept check svc s s₂.m s₄ ↔
      Reloadable check svc s.m.segVal s₂.m ∧ (svc = .callIret → s.m.intGateBits32 = false)) ∧
    ∀ r, r = .ss ∨ r ∈ spared ∧ svc ≠ .simulateInt → s.m.segVal r / 4 % 16384 ≠ 0 →
      notPresent s₂.m (s.m.segVal r) = true → ¬CallerKept check svc s s₂.m s₄ := by
  obtain ⟨-, rfl⟩ := h₁
  obtain ⟨-, -, rfl⟩ := h₂
  obtain rfl := unwind_eq h₃ hl
  have hstop : (leaveRm eng svc (saveRm s.m) s₂.m).2 = false := by rw [leaveRm_eq hret.pending]
  obtain ⟨hregs, hcs, hothers, heip, hcr0, hidtb, hidtl, hmem⟩ :=
    @leaveRm_frame eng svc (saveRm s.m) s₂.m hret.pending
  have hreturns : returnAt s.m.stubs (leaveRm eng svc (saveRm s.m) s₂.m).1.cpu.eip.toNat = some (frameSize s.m) ↔
      (svc = .callIret → s.m.intGateBits32 = false) := by
    rw [heip]
    by_cases hsvc : svc = .callIret
    · rw [if_pos hsvc, hret.stopped hsvc, returnAt_stop hgate]
      exact ⟨fun h _ => h, fun h => h hsvc⟩
    · rw [if_neg hsvc]
      exact ⟨fun _ h => absurd h hsvc, fun _ => returnAt_gate hgate⟩
  have hiff : CallerKept check svc s s₂.m ⟨(leaveRm eng svc (saveRm s.m) s₂.m).1, s.levels,
      (leaveRm eng svc (saveRm s.m) s₂.m).2⟩ ↔
      Reloadable check svc s.m.segVal s₂.m ∧ (svc = .callIret → s.m.intGateBits32 = false) := by
    refine ⟨fun h => ⟨(reloadable_iff _ _ _ _).2 h.unraised, hreturns.1 h.returns⟩, fun ⟨hload, hgates⟩ => ?_⟩
    refine ⟨(reloadable_iff _ _ _ _).1 hload, hreturns.2 hgates, rfl, hstop, hregs, fun r => ?_, hcr0,
      ⟨hidtb, hidtl⟩, hmem, ?_⟩
    · by_cases hr : r = .cs
      · subst hr
        exact hcs.trans (Nat.mod_eq_of_lt (segVal_lt s.m .cs))
      · exact (hothers r hr).trans (reloadSelectors_segVal heng (fun t => segVal_lt s.m t)
          (reloadable_backInPm hload) hr)
    · rw [hmem]
      exact (writeRmcs_off _ _ _).union (editFlag_off _ _ _ _)
  refine ⟨hiff, fun r hr hsel hfreed hkept => ?_⟩
  have hload : check.raises s₂.m r (s.m.segVal r) = false := by
    rcases hr with rfl | ⟨hr, hsvc⟩
    · exact (hiff.1 hkept).1.1
    · exact ((hiff.1 hkept).1.2 r hr).resolve_right fun h => hsvc h.1
  obtain ⟨p, hp, habsent⟩ := (Option.any_eq_true _ _).1 (of_decide_eq_true hfreed).2
  have hraise := hnp s₂.m.mem p r s₂.m.cpu.cpl (s.m.segVal r) hsel (Bool.not_eq_true' _ ▸ habsent)
  unfold LoadCheck.raises at hload
  rw [hp, hraise] at hload
  exact Bool.noConfusion hload

/-- Checks that raise #NP and nothing else. -/
def npCheck : LoadCheck := fun mem p _ _ sel => sel / 4 % 16384 ≠ 0 && p.any fun p => !descPresent mem p

/-- A client with `fs` in FS and null selectors elsewhere, behind the stub of a 16-bit gate; its LDT
    is empty. -/
def rmCaller (fs : Nat) : Machine :=
  { bootMachine with
    cpu := { zeroCpu with
      eip := 0x1004
      segs := fun s => if s = .fs then ⟨BitVec.ofNat 16 fs, 0⟩ else ⟨0, 0⟩
      cr0 := 1
      pmode := true
      ldtLimit := LDT_BYTES - 1 }
    stubs := { bootMachine.stubs with
      int31Cb := 0x1000
      int31Cb32 := 0x1020
      rmStopPtr := 0xF0001040 } }

/-- AX=0301 with a routine that returns at once. -/
theorem callFar_steps (m : Machine) : ∃ s₁ s₂ s₃ s₄,
    step tableEngine ⟨m, [], false⟩ (.enterRm .callFar) s₁ ∧ s₂.levels = s₁.levels ∧
      s₂.m = enterRm tableEngine .callFar m ∧ step tableEngine s₂ .stopCallback s₃ ∧
      step tableEngine s₃ .unwind s₄ :=
  ⟨_, _, _, _, ⟨rfl, rfl⟩, rfl, rfl, ⟨rfl, List.cons_ne_nil _ _, rfl⟩, ⟨_, _, rfl, rfl, rfl⟩⟩

theorem callFar_returned (m m' : Machine) : RoutineReturned .callFar m m' :=
  ⟨fun h => absurd h (by decide), fun h => absurd h (by decide)⟩

theorem npCheck_raisesNp : npCheck.RaisesNp := by
  intro mem p s cpl sel hsel habsent
  unfold npCheck
  simp [hsel, habsent]

theorem npCheck_selector : LoadsSelector tableEngine npCheck := fun _ _ _ _ => rfl

/-- The client has its data at 20000h in DS, selector 0Fh, and its stack at 30000h in SS, selector 17h. -/
def rmClient : Machine :=
  { rmCaller 0 with
    mem := writeLdtDescriptor (writeLdtDescriptor bootMachine.mem 1 0x20000 0xFFFF 0xF2 false) 2 0x30000 0xFFFF
      0xF2 false
    cpu := { (rmCaller 0).cpu with
      ldtBase := LDT_BASE
      segs := fun
        | .ds => ⟨0x0F, 0x20000⟩
        | .ss => ⟨0x17, 0x30000⟩
        | _ => ⟨0, 0⟩ } }

/-- Its descriptors are present, and it goes on. -/
theorem realMode_kept_selectors : ∃ s₁ s₂ s₃ s₄,
    step tableEngine ⟨rmClient, [], false⟩ (.enterRm .callFar) s₁ ∧ s₂.levels = s₁.levels ∧
      step tableEngine s₂ .stopCallback s₃ ∧ step tableEngine s₃ .unwind s₄ ∧
      CallerKept npCheck .callFar ⟨rmClient, [], false⟩ s₂.m s₄ := by
  obtain ⟨s₁, s₂, s₃, s₄, h₁, hl, hm, h₂, h₃⟩ := callFar_steps rmClient
  have hload : Reloadable npCheck .callFar rmClient.segVal s₂.m := by
    have hpass : ∀ s, npCheck.raises s₂.m s (rmClient.segVal s) = false := by
      intro s
      rw [hm]
      cases s <;> decide +kernel
    exact ⟨hpass .ss, fun s _ => .inl (hpass s)⟩
  exact ⟨s₁, s₂, s₃, s₄, h₁, hl, h₂, h₃, (realMode_kept_iff npCheck_selector npCheck_raisesNp
    ⟨by decide, by decide, by decide⟩ h₁ hl (callFar_returned _ _) h₂ h₃).1.2
      ⟨hload, fun h => absurd h (by decide)⟩⟩

/-- A client that parks a freed selector in FS is lost in AX=0301. -/
theorem freed_selector_lost : ∃ s₁ s₂ s₃ s₄,
    step tableEngine ⟨rmCaller 0x0F, [], false⟩ (.enterRm .callFar) s₁ ∧ s₂.levels = s₁.levels ∧
      step tableEngine s₂ .stopCallback s₃ ∧ step tableEngine s₃ .unwind s₄ ∧
      ThroughGate (rmCaller 0x0F) ∧ RoutineReturned .callFar (rmCaller 0x0F) s₂.m ∧
      ¬CallerKept npCheck .callFar ⟨rmCaller 0x0F, [], false⟩ s₂.m s₄ := by
  obtain ⟨s₁, s₂, s₃, s₄, h₁, hl, hm, h₂, h₃⟩ := callFar_steps (rmCaller 0x0F)
  refine ⟨s₁, s₂, s₃, s₄, h₁, hl, h₂, h₃, ⟨by decide, by decide, by decide⟩,
    callFar_returned _ _, fun h => ?_⟩
  have hload := h.unraised .fs (show SegName.fs ∈ [SegName.ds, .ss, .es, .fs, .gs] by decide)
  rw [hm] at hload
  have hraise : npCheck.raises (enterRm tableEngine .callFar (rmCaller 0x0F)) .fs 0x0F = true := by
    decide +kernel
  exact Bool.noConfusion (hload.symm.trans hraise)

end Dosiz.Nesting
