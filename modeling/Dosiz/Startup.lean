/-
  Dosiz/Startup.lean
  ==================
  **Two starters of one loader.**

  `dosiz_startup` enters the program `load_program` has loaded, in the CPU mode its
  `InitialRegs` ask for.  AH=4B AL=0 enters what `load_program_at` has loaded for a child,
  always in real mode.  The two agree, up to the load address, on the files that
  `load_exe_at` does not take for linear executables, and on no other.
-/
import Dosiz.Exec
import Dosiz.HostTables

namespace Dosiz

open ByteMemory Machine

/-! ### The program entry of `dosiz_startup` -/

/-- `CPU_JMP` to a code segment: the width is that of the offset. -/
def cpuJmp (eng : Engine) (m : Machine) (use32 : Bool) (sel off : Nat) : Machine :=
  (cpuSetSegGeneral eng m .cs sel).setEip (BitVec.ofNat 32 (if use32 then off else off % 65536))

/-- A selector for the PSP, or the data selector where the LDT has no room. -/
def pspSelector (m : Machine) (pmDs : Nat) : Machine × Nat :=
  let idx := ldtFindRun m 1
  if idx = 0 then (m, pmDs)
  else
    (ldtSet (m.setMem (writeLdtDescriptor m.mem idx (PSP_SEG * 16) 0xFFFF 0x92 false)) idx true,
      idx * 8 + 4)

/-- The end of `dosiz_startup`, from the loaded program to its first instruction. -/
def startProgram (eng : Engine) (m : Machine) (r : InitialRegs) : Machine :=
  if r.isPm then
    let m := cpuSetSegGeneral eng (cpuLldt (cpuSetCr0 m 1) PM_LDT_SEL) .ds r.pmDs
    let p := pspSelector m r.pmDs
    let m := cpuSetSegGeneral eng (cpuSetSegGeneral eng p.1 .es p.2) .ss r.ss
    cpuJmp eng (m.setR32 .esp r.pmEsp) r.is32bit r.cs r.pmEip
  else
    let m := segSet16 eng (segSet16 eng m .cs r.cs) .ds PSP_SEG
    let m := segSet16 eng (segSet16 eng m .es PSP_SEG) .ss r.ss
    ((m.setEip (BitVec.ofNat 32 r.ip)).setR16 .esp r.sp).setR16 .eax r.ax

/-! ### The state a program starts in -/

/-- Two programs, with PSPs at `psp` and `psp'`, start alike: in one CPU mode, and in real mode at the
    same place relative to the PSP, with DS and ES on it. -/
structure StartsLike (psp psp' : Nat) (m m' : Machine) : Prop where
  pmode : m'.cpu.pmode = m.cpu.pmode
  width : m'.cpu.codeBig = m.cpu.codeBig
  cs : m.cpu.pmode = false → (m'.segVal .cs + psp) % 65536 = (m.segVal .cs + psp') % 65536
  ip : m.cpu.pmode = false → m'.cpu.eip = m.cpu.eip
  ss : m.cpu.pmode = false → (m'.segVal .ss + psp) % 65536 = (m.segVal .ss + psp') % 65536
  sp : m.cpu.pmode = false → m'.sp = m.sp
  ax : m.cpu.pmode = false → m'.ax = m.ax
  ds : m.cpu.pmode = false → m.segVal .ds = psp % 65536 ∧ m'.segVal .ds = psp' % 65536
  es : m.cpu.pmode = false → m.segVal .es = psp % 65536 ∧ m'.segVal .es = psp' % 65536

/-- A real-mode load of the engine: the segment, its base, 16-bit code and stack. -/
def Engine.LoadsReal (eng : Engine) : Prop :=
  ∀ cpu s v, eng.loadSegmentReal cpu s v = (⟨BitVec.ofNat 16 v, BitVec.ofNat 32 (v * 16)⟩, false)

/-- What `SegSet16` leaves in the registers the program starts with. -/
structure RealStart (pm : Bool) (r : InitialRegs) (psp : Nat) (m' : Machine) : Prop where
  pmode : m'.cpu.pmode = pm
  width : m'.cpu.codeBig = false
  cs : m'.segVal .cs = r.cs % 65536
  ip : m'.cpu.eip = BitVec.ofNat 32 r.ip
  ss : m'.segVal .ss = r.ss % 65536
  ds : m'.segVal .ds = psp % 65536
  es : m'.segVal .es = psp % 65536

variable {eng : Engine} {host : Host} {path : List Nat} {m : Machine}

theorem realStart_segSet16 (heng : eng.LoadsReal) (m : Machine) (r : InitialRegs) (psp : Nat) :
    RealStart m.cpu.pmode r psp ((segSet16 eng (segSet16 eng (segSet16 eng (segSet16 eng m .cs r.cs) .ds psp) .es
      psp) .ss r.ss).setEip (BitVec.ofNat 32 r.ip)) := by
  have hval : ∀ v : Nat, (BitVec.ofNat 16 v).toNat = v % 65536 := fun v => BitVec.toNat_ofNat v 16
  have hload : ∀ (q : Machine) s v, segSet16 eng q s v =
      mirrorSeg q s (⟨BitVec.ofNat 16 v, BitVec.ofNat 32 (v * 16)⟩, false) := by
    intro q s v
    rw [segSet16, heng]
  simp only [hload]
  exact ⟨rfl, rfl, hval _, rfl, hval _, hval _, hval _⟩

theorem startProgram_real (heng : eng.LoadsReal) {r : InitialRegs} (h : r.isPm = false) :
    RealStart m.cpu.pmode r PSP_SEG (startProgram eng m r) ∧ (startProgram eng m r).sp = r.sp % 65536 ∧
      (startProgram eng m r).ax = r.ax % 65536 := by
  unfold startProgram
  rw [h]
  dsimp only
  have hreal := realStart_segSet16 heng m r PSP_SEG
  generalize (segSet16 eng (segSet16 eng (segSet16 eng (segSet16 eng m .cs r.cs) .ds PSP_SEG) .es
    PSP_SEG) .ss r.ss).setEip (BitVec.ofNat 32 r.ip) = q at hreal
  refine ⟨⟨hreal.pmode, hreal.width, hreal.cs, hreal.ip, hreal.ss, hreal.ds, hreal.es⟩, ?_, ?_⟩
  · rw [if_neg Bool.false_ne_true, sp, r16_setR16_of_ne _ _ (by decide), r16_setR16]
  · rw [if_neg Bool.false_ne_true, ax, r16_setR16]

theorem startProgram_pm {r : InitialRegs} (h : r.isPm = true) :
    (startProgram eng m r).cpu.pmode = true := by
  unfold startProgram
  rw [if_pos h]
  dsimp only
  unfold pspSelector
  dsimp only
  split <;> rfl

theorem startChild_real (heng : eng.LoadsReal) (psp env : Nat) (r : InitialRegs) :
    RealStart (m.cpu.pmode && m.cpu.cr0 % 2 ≠ 1) r psp (startChild eng m psp env r) ∧
      (startChild eng m psp env r).sp = r.sp % 65536 ∧ (startChild eng m psp env r).ax = r.ax % 65536 := by
  have hreal := realStart_segSet16 heng (pushProcess m psp env) r psp
  unfold startChild
  dsimp only
  generalize (segSet16 eng (segSet16 eng (segSet16 eng (segSet16 eng (pushProcess m psp env) .cs r.cs) .ds
    psp) .es psp) .ss r.ss).setEip (BitVec.ofNat 32 r.ip) = q at hreal
  have hsp : ((q.setR32 .esp r.sp).setR32 .eax r.ax).sp = r.sp % 65536 := by
    show (BitVec.ofNat 32 r.sp).toNat % 65536 = r.sp % 65536
    rw [BitVec.toNat_ofNat]
    omega
  have hax : ((q.setR32 .esp r.sp).setR32 .eax r.ax).ax = r.ax % 65536 := by
    rw [ax, r16, r32_setR32]
    omega
  split
  · rename_i hpe
    have hoff : decide (m.cpu.cr0 / 2 * 2 % 2 = 1) = (m.cpu.pmode && decide (m.cpu.cr0 % 2 ≠ 1)) := by
      rw [hpe]
      simp
    exact ⟨⟨hoff, hreal.width, hreal.cs, hreal.ip, hreal.ss, hreal.ds, hreal.es⟩, hsp, hax⟩
  · rename_i hpe
    have hon : m.cpu.pmode = (m.cpu.pmode && decide (m.cpu.cr0 % 2 ≠ 1)) := by simp [hpe]
    exact ⟨⟨hreal.pmode.trans hon, hreal.width, hreal.cs, hreal.ip, hreal.ss, hreal.ds, hreal.es⟩, hsp, hax⟩

/-! ### What the loader returns -/

/-- The file is a linear executable, as `load_exe_at` decides it. -/
def Linear (host : Host) (path : List Nat) : Prop :=
  let f := (host.contents path).getD []
  (hasMz f || isExePath path) ∧ ∃ extender le, extenderDetected host f = some extender ∧
    linearAt host f extender = some (some le)

theorem loadLe_isPm {f : List UInt8} {le : Nat} {r : Machine × Option InitialRegs} {i : InitialRegs}
    (h : Le.loadLe f le m = some r) (hi : r.2 = some i) : i.isPm = true := by
  obtain ⟨q, -, ⟨-, rfl⟩ | ⟨objects, e, -, rfl⟩⟩ := Le.loadLe_cases h
  · cases hi
  · cases hi
    rfl

/-- The initial registers of a COM or MZ program, relative to its PSP. -/
structure RealRegs (psp psp' : Nat) (i i' : InitialRegs) : Prop where
  isPm : i.isPm = false
  cs : (i'.cs + psp) % 65536 = (i.cs + psp') % 65536
  ip : i'.ip = i.ip
  ss : (i'.ss + psp) % 65536 = (i.ss + psp') % 65536
  sp : i'.sp = i.sp
  ax : i'.ax = i.ax

theorem loadComAt_regs {f : List UInt8} {m m' : Machine} {psp psp' : Nat} {i i' : InitialRegs}
    (h : (loadComAt f m psp).2 = some i) (h' : (loadComAt f m' psp').2 = some i') :
    RealRegs psp psp' i i' ∧ (loadComAt f m psp).1.cpu = m.cpu := by
  unfold loadComAt at *
  split at h
  · cases h
  · cases h
    rw [if_neg ‹_›] at h'
    cases h'
    exact ⟨⟨rfl, by dsimp only; omega, rfl, by dsimp only; omega, rfl, rfl⟩, by rw [if_neg ‹_›]; rfl⟩

theorem loadMz_regs {f : List UInt8} {m m' : Machine} {psp psp' : Nat} {r r' : Machine × Option InitialRegs}
    {i i' : InitialRegs} (h : loadMz f m psp = some r) (h' : loadMz f m' psp' = some r')
    (hi : r.2 = some i) (hi' : r'.2 = some i') : RealRegs psp psp' i i' ∧ r.1.cpu = m.cpu := by
  unfold loadMz at *
  simp only [Option.bind_eq_bind, Option.bind_eq_some_iff] at h h'
  obtain ⟨hdr, hhdr, h⟩ := h
  obtain ⟨hdr', hhdr', h'⟩ := h'
  cases hhdr.symm.trans hhdr'
  split at h
  · cases h
    cases hi
  · rw [if_neg ‹_›] at h'
    simp only [Option.bind_eq_some_iff] at h h'
    obtain ⟨image, -, p, -, h⟩ := h
    obtain ⟨image', -, p', -, h'⟩ := h'
    cases h
    cases h'
    dsimp only at hi hi'
    split at hi
    · split at hi'
      · cases hi
        cases hi'
        exact ⟨⟨rfl, by dsimp only; omega, rfl, by dsimp only; omega, rfl, rfl⟩, rfl⟩
      · cases hi'
    · cases hi

/-- A linear executable asks for protected mode; the registers of any other program are relative to
    its PSP, and loading it leaves the CPU alone. -/
theorem loadProgramAt_regs {m m' : Machine} {psp psp' : Nat} {r r' : Machine × Option InitialRegs}
    {i i' : InitialRegs} (h : loadProgramAt host path m psp = some r)
    (h' : loadProgramAt host path m' psp' = some r') (hi : r.2 = some i) (hi' : r'.2 = some i') :
    (Linear host path ∧ i.isPm = true) ∨
      (¬ Linear host path ∧ RealRegs psp psp' i i' ∧ r.1.cpu = m.cpu) := by
  unfold loadProgramAt at h h'
  dsimp only at h h'
  split at h
  · rename_i hexe
    rw [if_pos hexe] at h'
    unfold loadExeAt at h h'
    split at h
    · cases h
      cases hi
    · rw [if_neg ‹_›] at h'
      simp only [Option.bind_eq_bind, Option.bind_eq_some_iff] at h h'
      obtain ⟨extender, hext, linear, hlin, h⟩ := h
      obtain ⟨extender', hext', linear', hlin', h'⟩ := h'
      cases hext.symm.trans hext'
      cases hlin.symm.trans hlin'
      cases linear with
      | none =>
        refine Or.inr ⟨?_, ?_⟩
        · rintro ⟨-, e, le, he, hle⟩
          cases hext.symm.trans he
          cases hlin.symm.trans hle
        · have hcpu : (if extender then bindExtender m else m).cpu = m.cpu := by cases extender <;> rfl
          rw [← hcpu]
          exact loadMz_regs h h' hi hi'
      | some le => exact Or.inl ⟨⟨hexe, extender, le, hext, hlin⟩, loadLe_isPm h hi⟩
  · rename_i hexe
    rw [if_neg hexe] at h'
    cases h
    cases h'
    refine Or.inr ⟨?_, loadComAt_regs hi hi'⟩
    rintro ⟨hexe', -⟩
    exact hexe hexe'

/-! ### The two starters -/

/-- The path AH=4B is given, as the host resolves it. -/
def execPath (host : Host) (m : Machine) : List Nat :=
  host.resolvePath (readDosString m.mem 260 (dosArgAddr m .ds .edx))

/-- The machine the child's program is loaded in, and the one its first instruction runs in. -/
theorem int21_4B_started {m' : Machine} {saved : ExecSaved}
    (h : int21_4B eng host m = some (m', some saved)) :
    ∃ m₁ m₂ m₃ psp env r, LoaderFrame m m₁ ∧
      loadProgramAt host (execPath host m) m₁ psp = some (m₂, some r) ∧ LoaderFrame m m₃ ∧
      m' = startChild eng m₃ psp env r := by
  unfold int21_4B at h
  dsimp only at h
  split at h
  · cases h
  · split at h
    · cases h
    · cases h
    · rename_i m₂ psp r hload
      obtain ⟨hframe, hprog⟩ := loadChild_frame hload
      obtain ⟨m₁, h₁, hl⟩ := hprog m₂ psp r rfl
      split at h
      · cases h
      · rename_i q env _ halloc
        split at h
        · cases h
        · cases h
          exact ⟨m₁, m₂, _, psp, env, r, h₁, hl, ((hframe.trans
            (imageFrame_mcbAllocate halloc).loader).trans (imageFrame_setMem _ _).loader).trans
            (imageFrame_setMem _ _).loader, rfl⟩

/-- A failed AH=4B answers CF = 1. -/
theorem int21_4B_failed {m' : Machine} (h : int21_4B eng host m = some (m', none)) :
    ∃ r code, m' = setCf (Machine.setR16 r .eax code) true := by
  unfold int21_4B at h
  dsimp only at h
  split at h
  · cases h
    exact ⟨_, _, rfl⟩
  · split at h
    · cases h
    · cases h
      exact ⟨_, _, rfl⟩
    · split at h
      · cases h
      · split at h
        · cases h
          exact ⟨_, _, rfl⟩
        · cases h

/-- A child starts in real mode. -/
theorem int21_4B_realMode (heng : eng.LoadsReal) (hpe : m.cpu.pmode = decide (m.cpu.cr0 % 2 = 1))
    {m' : Machine} {saved : ExecSaved} (h : int21_4B eng host m = some (m', some saved)) :
    m'.cpu.pmode = false := by
  obtain ⟨m₁, m₂, m₃, psp, env, r, -, -, h₃, rfl⟩ := int21_4B_started h
  rw [(startChild_real heng psp env r).1.pmode, h₃.pmode, h₃.cr0, hpe]
  by_cases hcr : m.cpu.cr0 % 2 = 1 <;> simp [hcr]

/-- **AH=4B and the startup.**  A failed AH=4B answers CF = 1 and enters no child.  A child it enters
    starts like the same program at top level exactly when the program is no linear executable: such a
    one has protected mode at top level, and its child has real mode. -/
theorem exec_startsLike_iff (heng : eng.LoadsReal) (hpe : m.cpu.pmode = decide (m.cpu.cr0 % 2 = 1)) :
    (∀ m', int21_4B eng host m = some (m', none) → ∃ r code, m' = setCf (Machine.setR16 r .eax code) true) ∧
      ∀ m' saved m₀ t r, int21_4B eng host m = some (m', some saved) → m₀.cpu.pmode = false →
        loadProgramAt host (execPath host m) m₀ PSP_SEG = some (t, some r) →
        (StartsLike PSP_SEG m'.currentPspSeg (startProgram eng t r) m' ↔ ¬ Linear host (execPath host m)) := by
  refine ⟨fun m' h => int21_4B_failed h, fun m' saved m₀ t r h hreal hboot => ?_⟩
  have hcpm := int21_4B_realMode heng hpe h
  obtain ⟨m₁, m₂, m₃, psp, env, r', -, hload, h₃, rfl⟩ := int21_4B_started h
  have hpsp : (startChild eng m₃ psp env r').currentPspSeg = psp := by
    rw [(sameGlobals_startChild eng m₃ psp env r').eq]
    rfl
  rw [hpsp]
  obtain ⟨hc, hcsp, hcax⟩ := startChild_real (m := m₃) heng psp env r'
  rcases loadProgramAt_regs hboot hload rfl rfl with ⟨hlin, hpm⟩ | ⟨hlin, hregs, hcpu⟩
  · refine ⟨fun hs => ?_, fun hn => absurd hlin hn⟩
    have := hs.pmode
    rw [hcpm, startProgram_pm hpm] at this
    cases this
  · refine ⟨fun _ => hlin, fun _ => ?_⟩
    obtain ⟨hs, hssp, hsax⟩ := startProgram_real (m := t) heng hregs.isPm
    have htpm : t.cpu.pmode = false := by
      rw [show t.cpu = m₀.cpu from hcpu]
      exact hreal
    exact
      { pmode := by rw [hcpm, hs.pmode, htpm]
        width := by rw [hc.width, hs.width]
        cs := fun _ => by
          have := hregs.cs
          rw [hc.cs, hs.cs]
          omega
        ip := fun _ => by rw [hc.ip, hs.ip, hregs.ip]
        ss := fun _ => by
          have := hregs.ss
          rw [hc.ss, hs.ss]
          omega
        sp := fun _ => by rw [hcsp, hssp, hregs.sp]
        ax := fun _ => by rw [hcax, hsax, hregs.ax]
        ds := fun _ => ⟨hs.ds, hc.ds⟩
        es := fun _ => ⟨hs.es, hc.es⟩ }

/-! ### A linear executable as a child -/

/-- The walk of the chain reads below 1 MB only. -/
theorem mcbWalk_congr {mem mem' : Mem} (h : ∀ x < GDT_BASE, mem' x = mem x) (need : Nat) :
    ∀ {fuel seg largest : Nat}, seg < 65536 →
      Mcb.mcbWalk mem' need fuel seg largest = Mcb.mcbWalk mem need fuel seg largest := by
  intro fuel
  induction fuel with
  | zero => intros; rfl
  | succ fuel ih =>
    intro seg largest hseg
    have hb : ∀ k < 5, readb mem' (seg * 16 + k) = readb mem (seg * 16 + k) := by
      intro k hk
      simp only [readb, h (seg * 16 + k) (by simp only [GDT_BASE]; omega)]
    have h₀ : readb mem' (seg * 16) = readb mem (seg * 16) := hb 0 (by decide)
    have h₁ : readw mem' (seg * 16 + 1) = readw mem (seg * 16 + 1) := by
      simp only [readw, hb 1 (by decide), show seg * 16 + 1 + 1 = seg * 16 + 2 by omega, hb 2 (by decide)]
    have h₃ : readw mem' (seg * 16 + 3) = readw mem (seg * 16 + 3) := by
      simp only [readw, hb 3 (by decide), show seg * 16 + 3 + 1 = seg * 16 + 4 by omega, hb 4 (by decide)]
    unfold Mcb.mcbWalk
    dsimp only
    rw [h₀, h₁, h₃, ih (Nat.mod_lt _ (by decide))]

theorem mcbAllocate_seg (m : Machine) (need : Nat) : (Mcb.mcbAllocate m need).map (·.2.1) =
    (Mcb.mcbFindFree (Mcb.mcbReady m).mem need).map fun r => if r.1 = 0 then 0 else (r.1 + 1) % 65536 := by
  unfold Mcb.mcbAllocate Mcb.mcbAllocateIn
  dsimp only
  cases Mcb.mcbFindFree (Mcb.mcbReady m).mem need with
  | none => rfl
  | some r =>
    obtain ⟨seg, largest⟩ := r
    dsimp only
    by_cases hz : seg = 0
    · simp [hz]
    · simp [hz]

theorem mcbAllocate_congr {m m' : Machine} (hinit : m'.mcbInitialised = m.mcbInitialised)
    (hset : m.mcbInitialised = true) (h : ∀ x < GDT_BASE, m'.mem x = m.mem x) (need : Nat) :
    (Mcb.mcbAllocate m' need).map (·.2.1) = (Mcb.mcbAllocate m need).map (·.2.1) := by
  have hwalk : Mcb.mcbFindFree m'.mem need = Mcb.mcbFindFree m.mem need :=
    mcbWalk_congr h need (by decide)
  have hm : ∀ q : Machine, q.mcbInitialised = true → Mcb.mcbReady q = q := fun q hq => if_pos hq
  rw [mcbAllocate_seg, mcbAllocate_seg, hm m hset, hm m' (hinit.trans hset), hwalk]

/-- The tables the launch writes: the GDT, the TSS and the gates. -/
def launchTables : Set Nat :=
  Set.Ico GDT_BASE (GDT_BASE + 128) ∪ Set.Ico TSS_BASE (TSS_BASE + TSS_SIZE) ∪ gateBytes

theorem pmSetupGdtAndIdt_off (m : Machine) (bits32 : Bool) (cs ds ss es : Nat) :
    AgreesOff launchTables m.mem (pmSetupGdtAndIdt m bits32 cs ds ss es).mem := by
  have hgdt := writeGdt_off m.mem bits32 cs ds ss es
  have htss := writeTss_off (writeGdt m.mem bits32 cs ds ss es)
  have hidt := writeIdt_gateBytes m.stubs bits32 (writeTss (writeGdt m.mem bits32 cs ds ss es))
  refine (hgdt.mono fun x hx => Or.inl (Or.inl hx)).trans ?_
  exact (htss.mono fun x hx => Or.inl (Or.inr hx)).trans (hidt.mono fun x hx => Or.inr hx)

/-- After the tables only gates are written. -/
theorem leLaunchPmPrep_gates (m : Machine) (bits32 : Bool) : AgreesOff gateBytes
    (pmSetupGdtAndIdt m bits32 (m.segVal .cs) (m.segVal .ds) (m.segVal .ss) (m.segVal .es)).mem
    (Le.leLaunchPmPrep m bits32).mem := by
  unfold Le.leLaunchPmPrep
  generalize pmSetupGdtAndIdt m bits32 (m.segVal .cs) (m.segVal .ds) (m.segVal .ss) (m.segVal .es) = p
  dsimp only
  generalize (if bits32 = true then p.stubs.leExcCb32 else p.stubs.leExcCb16) = cb
  split
  · exact AgreesOff.refl _ _
  · refine agreesOff_foldl (fun mem v hv => ?_) p.mem
    split
    · exact AgreesOff.refl _ _
    · exact writeIdtGate_gateBytes mem (by have := List.mem_range.mp hv; omega) _ _ _

theorem leLaunchPmPrep_off (m : Machine) (bits32 : Bool) :
    AgreesOff launchTables m.mem (Le.leLaunchPmPrep m bits32).mem := by
  have hs := pmSetupGdtAndIdt_off m bits32 (m.segVal .cs) (m.segVal .ds) (m.segVal .ss) (m.segVal .es)
  exact hs.trans ((leLaunchPmPrep_gates m bits32).mono fun x hx => Or.inr hx)

/-- The tables of the launch lie above 1 MB. -/
theorem leLaunch_low (m : Machine) (objects : List Le.LeObject) (e : Le.LeEntry) :
    ∀ x < GDT_BASE, (Le.leLaunch m objects e).1.mem x = m.mem x := by
  have hgates : ∀ x < GDT_BASE, ∀ (q : Machine) (b : Bool), (Le.leLaunchPmPrep q b).mem x = q.mem x := by
    intro x hx q b
    refine leLaunchPmPrep_off q b x ?_
    simp only [launchTables, gateBytes, Set.mem_union, Set.mem_Ico, GDT_BASE, TSS_BASE, IDT_BASE,
      PM_SHIM_BASE] at hx ⊢
    omega
  intro x hx
  have hflat : (Le.flatSelectors m).1.mem x = m.mem x := by
    have hx' : x < 0x100000 := hx
    have hbyte : ∀ (mem : Mem) a v, LDT_BASE ≤ a → writeb mem a v x = mem x := fun mem a v ha =>
      writeb_off mem a v x fun h => by
        simp only [LDT_BASE] at ha
        have := h.1
        omega
    have hdesc : ∀ (mem : Mem) idx limit access, writeLdtDescriptor mem idx 0 limit access true x = mem x :=
      fun mem idx limit access => writeLdtDescriptor_off mem idx 0 limit access true x fun h => by
        have := h.1
        simp only [LDT_BASE] at this
        omega
    unfold Le.flatSelectors
    dsimp only
    split
    · rfl
    · show writeb _ _ _ x = m.mem x
      rw [hbyte _ _ _ (by omega), hbyte _ _ _ (by omega), hdesc, hdesc]
  exact (hgates x hx _ _).trans hflat

theorem sameGlobals_leLaunchPmPrep (m : Machine) (bits32 : Bool) :
    SameGlobals m (Le.leLaunchPmPrep m bits32) := by
  have hsetup := sameGlobals_pmSetupGdtAndIdt m bits32 (m.segVal .cs) (m.segVal .ds) (m.segVal .ss)
    (m.segVal .es)
  unfold Le.leLaunchPmPrep
  generalize pmSetupGdtAndIdt m bits32 (m.segVal .cs) (m.segVal .ds) (m.segVal .ss) (m.segVal .es) = q
    at hsetup
  dsimp only
  generalize (if bits32 = true then q.stubs.leExcCb32 else q.stubs.leExcCb16) = cb
  split
  · exact hsetup
  · exact hsetup.trans (sameGlobals_setMem _ _)

theorem leLaunch_init (m : Machine) (objects : List Le.LeObject) (e : Le.LeEntry) :
    (Le.leLaunch m objects e).1.mcbInitialised = m.mcbInitialised := by
  have hflat : (Le.flatSelectors m).1.mcbInitialised = m.mcbInitialised := by
    unfold Le.flatSelectors
    dsimp only
    split <;> rfl
  refine Eq.trans ?_ hflat
  rw [show (Le.leLaunch m objects e).1 = Le.leLaunchPmPrep (Le.flatSelectors m).1 e.entry.isBig from rfl,
    (sameGlobals_leLaunchPmPrep _ _).eq]

/-- A linear executable with an MZ header and no extender goes to `loadLe`. -/
theorem loadProgramAt_linear {f : List UInt8} {le psp : Nat} (hf : host.contents path = some f)
    (hmz : hasMz f = true) (hlen : 0x1C ≤ f.length) (hext : extenderDetected host f = some false)
    (hlin : linearAt host f false = some (some le)) :
    loadProgramAt host path m psp = Le.loadLe f le m := by
  have hlong : ¬ (f.length < 0x1C ∨ !(hasMz f || f.take 2 = [0x5A, 0x4D])) := by
    rw [hmz]
    simpa using hlen
  unfold loadProgramAt
  dsimp only
  rw [hf, Option.getD_some, if_pos (by rw [hmz, Bool.true_or])]
  unfold loadExeAt
  rw [if_neg hlong, hext]
  simp only [Option.bind_eq_bind, Option.bind_some, hlin, Bool.false_eq_true, if_false]

/-- A linear executable of one empty object, with an MZ header and no stub. -/
def leTiny : List UInt8 :=
  [0x4D, 0x5A] ++ List.replicate 0x3A 0 ++ [0x40, 0, 0, 0, 0x4C, 0x45] ++ List.replicate 0x16 0 ++ [1] ++
    List.replicate 7 0 ++ [1] ++ List.replicate 0x1F 0 ++ [0x98, 0, 0, 0, 1] ++ List.replicate 0x5B 0 ++
    [0x04, 0x20] ++ List.replicate 0xE 0

/-- A host on which every path is that file. -/
def leHost : Host where
  resolvePath := id
  contents := fun _ => some leTiny
  bypassExtender := false
  leAsMz := false

theorem leTiny_loads (path : List Nat) (m : Machine) (psp : Nat) :
    loadProgramAt leHost path m psp = Le.loadLe leTiny 0x40 m :=
  loadProgramAt_linear rfl (by decide +kernel) (by decide +kernel) (by decide +kernel) (by decide +kernel)

/-- The one object of the file, in a block at `seg`. -/
def leTinyObject (seg sel : Nat) : Le.LeObject :=
  { virtBase := 0, virtSize := 0, flags := 0x2004, firstPage := 0, pageCount := 0, hostBase := seg * 16,
    hostSeg := seg, ldtSel := sel }

theorem leTiny_fixups (objects : List Le.LeObject) (mem : Mem) :
    Le.leApplyFixups leTiny 0x40 objects mem = some (mem, true) := by
  have ht : Le.readFixupTables leTiny 0x40 = some ⟨0, 0, 0, 0⟩ := by
    have h₁ : rdd leTiny 0x54 = some 0 := by decide +kernel
    have h₂ : rdd leTiny 0x68 = some 0 := by decide +kernel
    have h₃ : rdd leTiny 0xA8 = some 0 := by decide +kernel
    have h₄ : rdd leTiny 0xAC = some 0 := by decide +kernel
    unfold Le.readFixupTables
    simp only [Nat.reduceAdd, h₁, h₂, h₃, h₄, Option.bind_eq_bind, Option.bind_some]
    rfl
  unfold Le.leApplyFixups Le.leFixups
  rw [ht]
  rfl

theorem leTiny_entry (m : Machine) (o : Le.LeObject) :
    Le.leEntry leTiny 0x40 m [o] = some (m, some ⟨o, o, 0, 0, 0⟩) := by
  have h₁ : rdd leTiny 0x58 = some 1 := by decide +kernel
  have h₂ : rdd leTiny 0x5C = some 0 := by decide +kernel
  have h₃ : rdd leTiny 0x60 = some 1 := by decide +kernel
  have h₄ : rdd leTiny 0x64 = some 0 := by decide +kernel
  have h₅ : rdd leTiny 0xD4 = some 0 := by decide +kernel
  unfold Le.leEntry
  simp only [Nat.reduceAdd, h₁, h₂, h₃, h₄, h₅, Option.bind_eq_bind, Option.bind_some]
  rfl

/-- The file loaded, given a paragraph for its object and a slot for its descriptor. -/
theorem leTiny_prepare {m a : Machine} {seg largest : Nat} (hready : m.mcbInitialised = true)
    (halloc : Mcb.mcbAllocate m 1 = some (a, seg, largest)) (hseg : seg ≠ 0)
    (hrun : ldtFindRun a 1 ≠ 0) :
    ∃ q e, Le.lePrepare leTiny 0x40 m = some (q, some e) ∧ q.mcbInitialised = a.mcbInitialised ∧
      ∀ x < GDT_BASE, q.mem x = a.mem x := by
  have hi : Le.loadLeInspect leTiny 0x40 = some true := by decide +kernel
  have hh : Le.readHeader leTiny 0x40 = some ⟨0, 0, 0, 0x98, 1, 0, 0⟩ := by
    have h₁ : rdd leTiny 0x84 = some 1 := by decide +kernel
    have h₂ : rdd leTiny 0x80 = some 0x98 := by decide +kernel
    have h₃ : rdd leTiny 0x88 = some 0 := by decide +kernel
    have h₄ : rdd leTiny 0x68 = some 0 := by decide +kernel
    have h₅ : rdd leTiny 0x6C = some 0 := by decide +kernel
    have h₆ : rdd leTiny 0x54 = some 0 := by decide +kernel
    have h₇ : rdd leTiny 0xC0 = some 0 := by decide +kernel
    unfold Le.readHeader
    simp only [Nat.reduceAdd, h₁, h₂, h₃, h₄, h₅, h₆, h₇, Option.bind_eq_bind, Option.bind_some]
    rfl
  have ho : Le.readObject leTiny 0xD8 = some { leTinyObject 0 0 with hostSeg := 0 } := by decide +kernel
  have hlen : leTiny.length = 0xF0 := by decide +kernel
  have hra : Mcb.mcbReady m = m := if_pos hready
  have hal : Le.leAllocate m 0 = some (a, seg, seg * 16) := by
    have hlow : Le.leAllocateLow m 0 = some (a, seg) := by
      show (Mcb.mcbAllocate m 1).map _ = _
      rw [halloc]
      rfl
    unfold Le.leAllocate
    rw [hlow]
    dsimp only
    rw [if_pos hseg]
  have hobj : ∀ h : Le.LeHeader, h.objTblOff = 0x98 → Le.leLoadObject leTiny 0x40 h 0 m =
      some (a.setMem (fillLin a.mem (seg * 16) 0 0), some (leTinyObject seg 0)) := by
    intro h hoff
    have he : h.entryOff 0x40 0 = 0xD8 := by
      rw [Le.LeHeader.entryOff, hoff]
      rfl
    unfold Le.leLoadObject
    rw [he, if_neg (by rw [hlen]; decide), ho]
    simp only [Option.bind_eq_bind, Option.bind_some, leTinyObject, hal,
      if_neg (show ¬ seg * 16 = 0 by omega)]
    rfl
  have hload : Le.leLoadObjects leTiny 0x40 m =
      some (a.setMem (fillLin a.mem (seg * 16) 0 0), [leTinyObject seg 0], true) := by
    unfold Le.leLoadObjects
    rw [hh]
    simp only [Option.bind_eq_bind, Option.bind_some, Le.leLoadFrom]
    rw [hobj _ rfl]
    rfl
  have hinst : Le.leInstallDescriptors (a.setMem (fillLin a.mem (seg * 16) 0 0)) [leTinyObject seg 0] =
      some (Le.installDescriptors (ldtFindRun a 1) [leTinyObject seg 0]
        (a.setMem (fillLin a.mem (seg * 16) 0 0))) := by
    have hr : ldtFindRun (a.setMem (fillLin a.mem (seg * 16) 0 0)) 1 = ldtFindRun a 1 := rfl
    unfold Le.leInstallDescriptors
    dsimp only [List.length_singleton, Nat.reduceMod]
    rw [hr, if_neg hrun]
    rfl
  have hprep : Le.lePrepare leTiny 0x40 m = some
      ((Le.installDescriptors (ldtFindRun a 1) [leTinyObject seg 0]
        (a.setMem (fillLin a.mem (seg * 16) 0 0))).1, some ([leTinyObject seg ((ldtFindRun a 1 * 8 + 4) % 65536)],
          ⟨leTinyObject seg ((ldtFindRun a 1 * 8 + 4) % 65536),
            leTinyObject seg ((ldtFindRun a 1 * 8 + 4) % 65536), 0, 0, 0⟩)) := by
    unfold Le.lePrepare
    rw [hi, hra, hload]
    simp only [Option.bind_eq_bind, Option.bind_some, hinst]
    rw [leTiny_fixups]
    simp only [Option.bind_some]
    rw [show (Le.installDescriptors (ldtFindRun a 1) [leTinyObject seg 0]
      (a.setMem (fillLin a.mem (seg * 16) 0 0))).2 = [leTinyObject seg ((ldtFindRun a 1 * 8 + 4) % 65536)]
      from rfl, leTiny_entry]
    rfl
  refine ⟨_, _, hprep, rfl, fun x hx => ?_⟩
  have hx' : x < 0x100000 := hx
  have hw := writeLdtDescriptor_off (fillLin a.mem (seg * 16) 0 0) (ldtFindRun a 1) (seg * 16) 0 0x9A true x
    fun h => by
      have := h.1
      simp only [LDT_BASE] at this
      omega
  have hd : (Le.installDescriptors (ldtFindRun a 1) [leTinyObject seg 0]
      (a.setMem (fillLin a.mem (seg * 16) 0 0))).1.mem =
      writeLdtDescriptor (fillLin a.mem (seg * 16) 0 0) (ldtFindRun a 1) (seg * 16) 0
        (if (leTinyObject seg 0).isCode then 0x9A else 0x92) (leTinyObject seg 0).isBig := rfl
  have hcode : (leTinyObject seg 0).isCode = true := by simp [Le.LeObject.isCode, leTinyObject]
  have hbig : (leTinyObject seg 0).isBig = true := by simp [Le.LeObject.isBig, leTinyObject]
  rw [hd, hcode, hbig, if_pos rfl, hw]
  exact if_neg (by simp)

/-- Room for the child, the object and the environment, from boot. -/
theorem leTiny_room : ((childSpace bootMachine).bind fun s => (Mcb.mcbAllocate s.1 1).bind fun a =>
    (Mcb.mcbAllocate a.1 (ENV_BYTES / 16)).map fun e => s.2 ≠ 0 && s.1.mcbInitialised && a.2.1 ≠ 0 &&
      a.1.mcbInitialised && ldtFindRun a.1 1 ≠ 0 && e.2.1 ≠ 0) = some true := by
  decide +kernel

theorem loadChild_loads {m₁ m₂ : Machine} {psp : Nat} {r : InitialRegs} (hs : childSpace m = some (m₁, psp))
    (hpsp : psp ≠ 0) (hl : loadProgramAt host path m₁ psp = some (m₂, some r)) :
    loadChild host path m = some (.loaded m₂ psp r) := by
  unfold loadChild
  rw [hs]
  dsimp only
  rw [if_neg hpsp, hl]

/-- With the program loaded and room for its environment the child is entered. -/
theorem int21_4B_starts {m₂ : Machine} {psp : Nat} {r : InitialRegs} {e : Machine × Nat × Nat}
    (hfile : (host.contents (execPath host m)).isNone = false)
    (hchild : loadChild host (execPath host m) m = some (.loaded m₂ psp r))
    (he : Mcb.mcbAllocate m₂ (ENV_BYTES / 16) = some e) (henv : e.2.1 ≠ 0) :
    ∃ m' saved, int21_4B eng host m = some (m', some saved) := by
  unfold execPath at hfile hchild
  unfold int21_4B
  dsimp only
  rw [if_neg (by rw [hfile]; exact Bool.false_ne_true), hchild]
  dsimp only
  rw [he]
  dsimp only
  rw [if_neg henv]
  exact ⟨_, _, rfl⟩

theorem leTiny_starts : ∃ m' saved, int21_4B tableEngine leHost bootMachine = some (m', some saved) := by
  have hroom := leTiny_room
  obtain ⟨⟨m₁, psp⟩, hs, hroom⟩ := Option.bind_eq_some_iff.mp hroom
  obtain ⟨⟨a, seg, largest⟩, ha, hroom⟩ := Option.bind_eq_some_iff.mp hroom
  obtain ⟨e, he, hok⟩ := Option.map_eq_some_iff.mp hroom
  simp only [Bool.and_eq_true, decide_eq_true_eq] at hok
  obtain ⟨⟨⟨⟨⟨hpsp, hinit₁⟩, hseg⟩, hinit⟩, hrun⟩, henv⟩ := hok
  obtain ⟨q, ⟨objects, entry⟩, hq, hqi, hqm⟩ := leTiny_prepare hinit₁ ha hseg hrun
  have hload : Le.loadLe leTiny 0x40 m₁ =
      some ((Le.leLaunch q objects entry).1, some (Le.leLaunch q objects entry).2) := by
    unfold Le.loadLe
    rw [hq]
    rfl
  have hlow : ∀ x < GDT_BASE, (Le.leLaunch q objects entry).1.mem x = a.mem x :=
    fun x hx => (leLaunch_low q objects entry x hx).trans (hqm x hx)
  have hmap := mcbAllocate_congr ((leLaunch_init q objects entry).trans hqi) hinit hlow (ENV_BYTES / 16)
  rw [he] at hmap
  obtain ⟨e', he', henv'⟩ := Option.map_eq_some_iff.mp hmap
  exact int21_4B_starts rfl (loadChild_loads hs hpsp ((leTiny_loads _ m₁ psp).trans hload)) he'
    (by rw [henv']; exact henv)

theorem leTiny_boots : ((loadProgramAt leHost (execPath leHost bootMachine) bootMachine PSP_SEG).bind
    (·.2)).isSome = true := by
  decide +kernel

/-- A host on which every path is a COM file of one byte. -/
def comHost : Host where
  resolvePath := id
  contents := fun _ => some [0xC3]
  bypassExtender := false
  leAsMz := false

theorem com_runs : ((int21_4B tableEngine comHost bootMachine).bind (·.2)).isSome = true := by
  decide +kernel

theorem tableEngine_loadsReal : tableEngine.LoadsReal := fun _ _ _ => rfl

/-- A one-byte COM program starts as a child as it does at top level. -/
theorem exec_startsLike_com : ∃ m' saved t r,
    int21_4B tableEngine comHost bootMachine = some (m', some saved) ∧
      loadProgramAt comHost (execPath comHost bootMachine) bootMachine PSP_SEG = some (t, some r) ∧
      StartsLike PSP_SEG m'.currentPspSeg (startProgram tableEngine t r) m' := by
  obtain ⟨saved, hsaved⟩ := Option.isSome_iff_exists.mp com_runs
  obtain ⟨⟨m', x⟩, hexec, hx⟩ := Option.bind_eq_some_iff.mp hsaved
  dsimp only at hx
  subst hx
  obtain ⟨t, hboot⟩ : ∃ t, loadProgramAt comHost (execPath comHost bootMachine) bootMachine PSP_SEG =
    some (t, some { cs := PSP_SEG, ip := 0x100, ss := PSP_SEG, sp := 0xFFFE, ax := 0 }) := ⟨_, rfl⟩
  refine ⟨m', saved, t, _, hexec, hboot, ?_⟩
  refine ((exec_startsLike_iff tableEngine_loadsReal rfl).2 m' saved bootMachine t _ hexec rfl hboot).mpr ?_
  rintro ⟨hexe, -⟩
  revert hexe
  decide

/-- A linear executable starts in real mode as a child, in protected mode at top level. -/
theorem exec_not_startsLike_le : ∃ m' saved t r,
    int21_4B tableEngine leHost bootMachine = some (m', some saved) ∧
      loadProgramAt leHost (execPath leHost bootMachine) bootMachine PSP_SEG = some (t, some r) ∧
      (startProgram tableEngine t r).cpu.pmode = true ∧ m'.cpu.pmode = false ∧
      ¬ StartsLike PSP_SEG m'.currentPspSeg (startProgram tableEngine t r) m' := by
  obtain ⟨m', saved, hexec⟩ := leTiny_starts
  obtain ⟨r, hr⟩ := Option.isSome_iff_exists.mp leTiny_boots
  obtain ⟨⟨t, o⟩, hboot, ho⟩ := Option.bind_eq_some_iff.mp hr
  dsimp only at ho
  subst ho
  have hpm : r.isPm = true := loadLe_isPm ((leTiny_loads _ _ _).symm.trans hboot) rfl
  have htop : (startProgram tableEngine t r).cpu.pmode = true := startProgram_pm hpm
  have hchild := int21_4B_realMode tableEngine_loadsReal rfl hexec
  refine ⟨m', saved, t, r, hexec, hboot, htop, hchild, fun hs => ?_⟩
  have := hs.pmode
  rw [htop, hchild] at this
  cases this

end Dosiz
