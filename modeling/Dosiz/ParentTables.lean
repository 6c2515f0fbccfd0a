/-
  Dosiz/ParentTables.lean
  =======================
  **The protected-mode environment of a parent** (INT 21h AH=4B AL=0 of `bridge.cc`).

  Before it runs the child, AH=4B keeps the LDT, its bitmap, the exception handlers and the callback
  stack, and afterwards it puts these back; the IDTR only for a real-mode parent.  The GDT, the
  IDT, the converted segments and the client's ring it does not keep, and the child's DPMI entry
  writes all of them.  `parentTables_iff`: what the parent finds is what it left exactly where
  the child has left the second group alone, and so it is after every run of services that
  keep off them.
-/
import Dosiz.FailedLoads
import Dosiz.ModeSwitch
import Dosiz.SharedTables

namespace Dosiz.ParentTables

open ByteMemory BlockChain Machine Mcb PmArena ChildBlocks ChildEnv ChildResources Nesting SharedTables Transition

/-! ### Loading the child -/

/-- Conventional memory, the chain's flag and the extender flag apart, nothing has changed. -/
structure LowOnly (m m' : Machine) : Prop where
  eq : m' = { m with
    mem := m'.mem
    mcbInitialised := m'.mcbInitialised
    extenderBound := m'.extenderBound }
  off : AgreesOff firstMegabyte m.mem m'.mem

section Loading

variable {m m' m'' : Machine} {bs bs' : List (Block Nat)} {s : Nat} {b : Block Nat}

theorem LowOnly.trans (h : LowOnly m m') (h' : LowOnly m' m'') : LowOnly m m'' := by
  refine ⟨?_, h.off.trans h'.off⟩
  rw [h'.eq, h.eq]

theorem LowOnly.tablesKept (h : LowOnly m m') : TablesKept m m' := by
  refine tablesKept_of_off beside_low h.off ?_ ?_
  · rw [h.eq]
    rfl
  · rw [h.eq]
    rfl

theorem lowOnly_mcbFree (m : Machine) (s : Nat) : LowOnly m (mcbFree m s).1 := by
  refine ⟨?_, mcbFree_low m s⟩
  unfold mcbFree
  split <;> rfl

end Loading

/-! ### The end of the child -/

section End

variable {eng : Engine} {saved : ExecSaved} {m : Machine} {ps : ProcessState} {tl : List ProcessState}

/-- Segment loads change segment registers and widths. -/
theorem idtr_foldl {f : Machine → SegName → Machine} (hf : ∀ m s, SharedTables.idtr (f m s) = SharedTables.idtr m)
    (m : Machine) : ∀ segs : List SegName, SharedTables.idtr (segs.foldl f m) = SharedTables.idtr m := by
  intro segs
  induction segs generalizing m with
  | nil => rfl
  | cons s segs ih => exact (ih (f m s)).trans (hf m s)

/-- The IDTR the parent gets: the one from before the child only if it was in real mode. -/
theorem restored_idtr (eng : Engine) (saved : ExecSaved) (ps : ProcessState) (m : Machine) :
    idtr (restored eng saved ps m) =
      if saved.cr0 % 2 = 1 then idtr m else (saved.idtBase, saved.idtLimit) := by
  have htables : idtr (parentTables saved m) = idtr m := rfl
  show idtr (restoreSegments eng saved ps (parentTables saved m)) = _
  unfold restoreSegments
  split
  · rw [← htables]
    exact idtr_foldl (f := fun m s => cpuSetSegGeneral eng m s (ps.segs s).toNat) (fun _ _ => rfl) _ _
  · rfl

/-- What AH=4B leaves of the protected-mode environment. -/
structure Ended (saved : ExecSaved) (m m' : Machine) : Prop where
  ldt : ∀ i < LDT_BYTES, LDT_BASE + i ≠ flagsAddr m' → m'.mem (LDT_BASE + i) = saved.ldt i
  tables : ∀ a ∈ tableBytes, a ≠ flagsAddr m' → m'.mem a = m.mem a
  inUse : m'.ldtInUse = saved.ldtInUse
  pmExc : m'.pmExc = saved.pmExc
  host : shared m' = shared m
  idtr : SharedTables.idtr m' =
    if saved.cr0 % 2 = 1 then SharedTables.idtr m else (saved.idtBase, saved.idtLimit)

/-- The child's blocks are freed, and the carry flag is cleared, after everything else. -/
theorem execEnd_freed (h : m.processStack = ps :: tl) : ∃ q, LowOnly (restored eng saved ps m) q ∧
    (execEnd eng saved m).1 =
      setCf ((setLastChildExit q ps.childExitCode).setR8l .eax ps.childExitCode) false := by
  unfold execEnd
  rw [h]
  dsimp only
  split
  · exact ⟨_, (lowOnly_mcbFree _ _).trans (lowOnly_mcbFree _ _), rfl⟩
  · exact ⟨_, lowOnly_mcbFree _ _, rfl⟩

/-- The LDT and the callback stack are put back, and nothing else of the host's memory. -/
theorem restored_high (eng : Engine) (saved : ExecSaved) (ps : ProcessState) (m : Machine) :
    AgreesOff (Set.Ici LDT_BASE) m.mem (restored eng saved ps m).mem ∧
      ∀ i < LDT_BYTES, (restored eng saved ps m).mem (LDT_BASE + i) = saved.ldt i := by
  have hmem : (restored eng saved ps m).mem = blit (blit m.mem LDT_BASE LDT_BYTES saved.ldt) PM_CB_STACK_BASE
      PM_CB_STACK_SIZE saved.cbStack := restoreSegments_mem eng saved ps _
  rw [hmem]
  constructor
  · refine ((blit_off _ _ _ _).mono fun x hx => hx.1).trans ((blit_off _ _ _ _).mono fun x hx => ?_)
    exact (show LDT_BASE ≤ PM_CB_STACK_BASE by decide).trans hx.1
  · intro i hi
    have hout : LDT_BASE + i ∉ Set.Ico PM_CB_STACK_BASE (PM_CB_STACK_BASE + PM_CB_STACK_SIZE) := by
      rintro ⟨hlow, -⟩
      simp only [LDT_BASE, LDT_BYTES, PM_CB_STACK_BASE] at hi hlow
      omega
    rw [blit_off _ _ _ _ _ hout, blit, if_pos ⟨Nat.le_add_right _ _, Nat.add_lt_add_left hi _⟩,
      Nat.add_sub_cancel_left]

theorem execEnd_ended (h : m.processStack = ps :: tl) : Ended saved m (execEnd eng saved m).1 := by
  obtain ⟨hhigh, hldt⟩ := restored_high eng saved ps m
  have hglobals := restored_globals eng saved ps m
  have hidtr := restored_idtr eng saved ps m
  obtain ⟨q, hq, hend⟩ := @execEnd_freed eng saved m ps tl h
  rw [hend]
  generalize restored eng saved ps m = p at hhigh hldt hglobals hidtr hq
  have hmem : ∀ a, a ∉ firstMegabyte → a ≠ flagsAddr ((setLastChildExit q ps.childExitCode).setR8l .eax
      ps.childExitCode) → (setCf ((setLastChildExit q ps.childExitCode).setR8l .eax ps.childExitCode) false).mem a =
        p.mem a := fun a ha hne => (setCf_off _ false a hne).trans (hq.off a ha)
  have htables : SharedKept p q := hq.tablesKept.toSharedKept
  refine ⟨fun i hi hne => (hmem _ ?_ hne).trans (hldt i hi), fun a ha hne => ?_, ?_, ?_, ?_, ?_⟩
  · show ¬ LDT_BASE + i < 0x100000
    simp only [LDT_BASE]
    omega
  · refine (hmem a (fun hlow => beside_low a hlow ha) hne).trans (hhigh a fun hx => beside_high a hx ha)
  · show q.ldtInUse = _
    rw [hq.eq, hglobals.eq]
    rfl
  · show q.pmExc = _
    rw [hq.eq, hglobals.eq]
    rfl
  · show shared q = _
    rw [htables.host, hglobals.eq]
    rfl
  · exact hq.tablesKept.idtr.trans hidtr

end End

/-! ### The environment -/

/-- What AX=0002 answers for `seg`: AX and the carry flag. -/
def converted (m : Machine) (seg : Nat) : Option (Nat × Bool) :=
  (int31_0002 (m.setR16 .ebx seg)).map fun r => (r.1.ax, r.2)

/-- The protected-mode environment that a program left as `m` is there in `m'`. -/
structure EnvironmentKept (m m' : Machine) : Prop where
  gdt : ∀ a ∈ gdtBytes, m'.mem a = m.mem a
  idt : ∀ a ∈ idtBytes, m'.mem a = m.mem a
  ldt : ∀ a ∈ ldtBytes, m'.mem a = m.mem a
  inUse : m'.ldtInUse = m.ldtInUse
  conv : m'.seg2descCache = m.seg2descCache
  cpl : m'.clientCpl = m.clientCpl
  pmExc : m'.pmExc = m.pmExc
  idtr : idtr m' = idtr m
  conversions : ∀ seg < 65536, m.seg2descCache seg ≠ 0 → converted m' seg = converted m seg
  handlers : ∀ v < 256, gateSelector m'.mem (IDT_BASE + v * 8) = gateSelector m.mem (IDT_BASE + v * 8) ∧
    gateOffset m'.mem (IDT_BASE + v * 8) = gateOffset m.mem (IDT_BASE + v * 8)

/-- What AH=4B has kept is what was there at the call, and the child has left alone the tables that AH=4B
    does not keep. -/
structure LeftAlone (saved : ExecSaved) (m m' : Machine) : Prop extends TablesKept m m' where
  ldt : ∀ i < LDT_BYTES, saved.ldt i = m.mem (LDT_BASE + i)
  inUse : saved.ldtInUse = m.ldtInUse

section Environment

variable {m m' : Machine}

/-- A segment converted before gets the selector of its slot. -/
theorem converted_known {seg : Nat} (hseg : seg < 65536) (hknown : m.seg2descCache seg ≠ 0) :
    converted m seg = some ((m.seg2descCache seg * 8 ||| 4 ||| m.clientCpl) % 65536, false) := by
  have hbx : (m.setR16 .ebx seg).bx = seg := by
    rw [bx, r16_setR16, Nat.mod_eq_of_lt hseg]
  have hcache : (m.setR16 .ebx seg).seg2descCache = m.seg2descCache := rfl
  rw [converted, int31_0002, hbx]
  dsimp only
  rw [hcache, if_pos hknown, succeed, Option.map_some, ax, r16_setR16]
  rfl

theorem gate_same (h : ∀ a ∈ idtBytes, m'.mem a = m.mem a) {v : Nat} (hv : v < 256) :
    gateSelector m'.mem (IDT_BASE + v * 8) = gateSelector m.mem (IDT_BASE + v * 8) ∧
      gateOffset m'.mem (IDT_BASE + v * 8) = gateOffset m.mem (IDT_BASE + v * 8) := by
  have hbyte : ∀ k < 8, readb m'.mem (IDT_BASE + v * 8 + k) = readb m.mem (IDT_BASE + v * 8 + k) := by
    intro k hk
    rw [readb, readb, h _ ⟨by omega, by simp only [IDT_LIMIT]; omega⟩]
  have h₀ := hbyte 0 (by decide)
  rw [Nat.add_zero] at h₀
  exact ⟨by rw [gateSelector, gateSelector, hbyte 2 (by decide), hbyte 3 (by decide)],
    by rw [gateOffset, gateOffset, h₀, hbyte 1 (by decide), hbyte 6 (by decide), hbyte 7 (by decide)]⟩

end Environment

section Return

variable {eng : Engine} {host : Host} {m₀ m₁ m : Machine} {saved : ExecSaved} {ps : ProcessState}
  {tl : List ProcessState}

/-- The exception handlers and the mode that AH=4B keeps are the caller's. -/
theorem saved_caller (h : int21_4B eng host m₀ = some (m₁, some saved)) :
    saved.pmExc = m₀.pmExc ∧ saved.cr0 = m₀.cpu.cr0 := by
  obtain ⟨q, psp, env, regs, -, hframe, -, rfl, -⟩ := int21_4B_withChild h
  constructor
  · show q.pmExc = m₀.pmExc
    rw [hframe.eq]
  · show q.cpu.cr0 = m₀.cpu.cr0
    exact hframe.cr0

/-- The return from a child, whatever it has done. -/
theorem restored_iff (h : int21_4B eng host m₀ = some (m₁, some saved)) (hpm : m₀.cpu.cr0 % 2 = 1)
    (hps : m.processStack = ps :: tl)
    (hflags : flagsAddr (execEnd eng saved m).1 ∉ tableBytes ∪ ldtBytes) :
    EnvironmentKept m₀ (execEnd eng saved m).1 ↔ LeftAlone saved m₀ m := by
  obtain ⟨hexc, hcr0⟩ := saved_caller h
  have hend : Ended saved m (execEnd eng saved m).1 := execEnd_ended hps
  generalize (execEnd eng saved m).1 = r at hend hflags ⊢
  have htables : ∀ a ∈ tableBytes, r.mem a = m.mem a := fun a ha =>
    hend.tables a ha fun hf => hflags (Or.inl (hf ▸ ha))
  have hldt : ∀ i < LDT_BYTES, r.mem (LDT_BASE + i) = saved.ldt i := fun i hi =>
    hend.ldt i hi fun hf => hflags (Or.inr (hf ▸ ⟨Nat.le_add_right _ _, Nat.add_lt_add_left hi _⟩))
  have hidtr := hend.idtr
  rw [hcr0, if_pos hpm] at hidtr
  constructor
  · intro hk
    refine ⟨⟨⟨fun a ha => (htables a ha).symm.trans ?_, hend.host.symm.trans (Prod.ext hk.conv hk.cpl)⟩,
      hidtr.symm.trans hk.idtr⟩, fun i hi => (hldt i hi).symm.trans (hk.ldt _ ?_), hend.inUse.symm.trans hk.inUse⟩
    · exact ha.elim (hk.gdt a) (hk.idt a)
    · exact ⟨Nat.le_add_right _ _, Nat.add_lt_add_left hi _⟩
  · intro hk
    have hbytes : ∀ a ∈ tableBytes, r.mem a = m₀.mem a := fun a ha => (htables a ha).trans (hk.mem a ha)
    have hhost := hend.host.trans hk.host
    have hconv : r.seg2descCache = m₀.seg2descCache := congrArg Prod.fst hhost
    have hcpl : r.clientCpl = m₀.clientCpl := congrArg Prod.snd hhost
    refine ⟨fun a ha => hbytes a (Or.inl ha), fun a ha => hbytes a (Or.inr ha), fun a ha => ?_,
      hend.inUse.trans hk.inUse, hconv, hcpl, hend.pmExc.trans hexc, hidtr.trans hk.idtr, fun seg hseg hknown => ?_,
      fun v hv => gate_same (fun a ha => hbytes a (Or.inr ha)) hv⟩
    · obtain ⟨i, rfl⟩ := Nat.exists_eq_add_of_le ha.1
      have hi : i < LDT_BYTES := Nat.lt_of_add_lt_add_left ha.2
      exact (hldt i hi).trans (hk.ldt i hi)
    · rw [converted_known hseg hknown, converted_known hseg (by rwa [hconv]), hconv, hcpl]

end Return

/-! ### A child that keeps off the tables -/

section Child

variable {eng : Engine} {m m' : Machine}

/-- An event of the child's own level that leaves the tables: its instructions write beside them, its
    calls of INT 31h are no writers of them, no flag image is on them, and its DPMI entry finds
    what it writes. -/
def Spares (eng : Engine) (s : State) : Event → Prop
  | .other m' => TablesKept s.m m'
  | .memory svc => ∀ r, svc s.m = some r → flagsAddr r.1 ∉ tableBytes
  | .files call => flagsAddr (call.serve s.m).1 ∉ tableBytes
  | .int31 => Int31Spares s.m ∧ ∀ m', dosizInt31 eng s.m = some m' → flagsAddr m' ∉ tableBytes
  | .dpmiEntry => TablesKept s.m (dosizDpmiEntry eng s.m)
  | .exit => True
  | _ => False

end Child

/-! ### The return to the parent -/

section Return

variable {eng : Engine} {host : Host} {m₀ m₁ : Machine} {saved : ExecSaved} {base : List Level} {s₁ s₂ s₃ : State}

end Return

/-! ### A child that takes a block and a handle -/

end Dosiz.ParentTables
