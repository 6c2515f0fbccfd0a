/-
  Dosiz/ClientEntry.lean
  ======================
  **The first protected-mode instruction of a client.**

  A real-mode client far-calls the entry point; the state compared here is the one its
  next instruction runs in.  At ring 3 that is the state `CPU_IRET` leaves; at ring 0 the
  stub's RETF runs first, on the client's own stack, whose return address has been given
  the protected-mode code selector.
-/
import Dosiz.HostTables
import Dosiz.FlagEdit

namespace Dosiz

open ByteMemory Machine

/-! ### The stages of the ring-3 path -/

/-- The PSP whose environment word the entry replaces. -/
def entryPsp (m : Machine) : Nat := if m.currentPspSeg ≠ 0 then m.currentPspSeg else PSP_SEG

/-- The ring-3 path up to its segment loads. -/
def ring3Tables (m : Machine) (cs : Nat) : Machine :=
  let env := if m.currentEnvSeg ≠ 0 then m.currentEnvSeg else ENV_SEG
  let set := starterSet cs (m.segVal .ds) (m.segVal .ss) (entryPsp m) env
  let m := installStarterSet (resetLdt (setClientCpl (cpuLldt (cpuSetCr0 m 1) PM_LDT_SEL) 3)) set
  m.setMem (writew m.mem (entryPsp m * 16 + 0x2C) 0x2F)

/-- The loads of SS, DS and ES. -/
def ring3Segs (eng : Engine) (m : Machine) : Machine :=
  let m := (cpuSetSegGeneral eng m .ss PM_CB_STACK).setR32 .esp (PM_CB_STACK_SIZE - 32)
  cpuSetSegGeneral eng (cpuSetSegGeneral eng m .ds 0x17) .es 0x27

/-- The staged IRETD frame. -/
def returnFrame (m : Machine) (ip : Nat) : Mem :=
  let at_ := fun k => lin (m.segPhys .ss + m.r32 .esp + k)
  let mem := writed (writed (writed m.mem (at_ 0) ip) (at_ 4) 0x0F) (at_ 8) 0x3002
  writed (writed mem (at_ 12) m.sp) (at_ 16) 0x1F

theorem enterRing3_eq (eng : Engine) (m : Machine) (cs ip : Nat) :
    enterRing3 eng m cs ip = (cpuIret32 eng ((ring3Segs eng (ring3Tables m cs)).setMem
      (returnFrame (ring3Segs eng (ring3Tables m cs)) ip))).setR16 .eax 0 := rfl

/-- Past the tables the ring-3 path works on the machine alone. -/
theorem sameGlobals_enterRing3 (eng : Engine) (m : Machine) (cs ip : Nat) :
    SameGlobals (ring3Tables m cs) (enterRing3 eng m cs ip) := by
  rw [enterRing3_eq]
  refine SameGlobals.trans ?_ (sameGlobals_setR16 _ _ _)
  refine SameGlobals.trans ?_ (sameGlobals_cpuIret32 eng _)
  refine SameGlobals.trans ?_ (sameGlobals_setMem _ _)
  refine SameGlobals.trans ?_ (sameGlobals_cpuSetSegGeneral eng _ _ _)
  refine SameGlobals.trans ?_ (sameGlobals_cpuSetSegGeneral eng _ _ _)
  exact (sameGlobals_cpuSetSegGeneral eng _ _ _).trans (sameGlobals_setR32 _ _ _)

/-! ### The client's LDT -/

theorem installStarterSet_mem (m : Machine) (set : List (Nat × Nat × Nat × Bool)) :
    (installStarterSet m set).mem = storeSlots m.mem LDT_BASE
      (set.map fun d => (d.1, descriptorBytes d.2.1 0xFFFF d.2.2.1 d.2.2.2)) := by
  induction set generalizing m with
  | nil => rfl
  | cons d set ih => exact ih _

theorem installStarterSet_cpu (m : Machine) (set : List (Nat × Nat × Nat × Bool)) :
    (installStarterSet m set).cpu = m.cpu := by
  induction set generalizing m with
  | nil => rfl
  | cons d set ih => exact ih _

/-- The word of the PSP the ring-3 path writes. -/
def pspWord (m : Machine) : Set Nat :=
  Set.Ico (entryPsp m * 16 + 0x2C) (entryPsp m * 16 + 0x2C + 2)

theorem entryPsp_lt {m : Machine} (h : m.currentPspSeg < 65536) : entryPsp m < 65536 := by
  unfold entryPsp
  split_ifs
  · exact h
  · decide

/-- The host's memory before the PSP's word is written. -/
theorem ring3Tables_mem (m : Machine) (cs : Nat) : (ring3Tables m cs).mem =
    writew (storeSlots (fill m.mem LDT_BASE LDT_BYTES 0) LDT_BASE
      ((starterSet cs (m.segVal .ds) (m.segVal .ss) (entryPsp m)
        (if m.currentEnvSeg ≠ 0 then m.currentEnvSeg else ENV_SEG)).map
          fun d => (d.1, descriptorBytes d.2.1 0xFFFF d.2.2.1 d.2.2.2)))
      (entryPsp m * 16 + 0x2C) 0x2F := by
  unfold ring3Tables
  dsimp only [setMem]
  rw [installStarterSet_mem]
  rfl

theorem starterSlots_length (cs ds ss psp env : Nat) :
    ∀ e ∈ (starterSet cs ds ss psp env).map
      (fun d => (d.1, descriptorBytes d.2.1 0xFFFF d.2.2.1 d.2.2.2)), e.2.length = 8 := by
  intro e he
  obtain ⟨d, -, rfl⟩ := List.mem_map.mp he
  rfl

theorem ring3Tables_off (m : Machine) (cs : Nat) :
    AgreesOff (Set.Ico LDT_BASE (LDT_BASE + LDT_BYTES) ∪ pspWord m) m.mem (ring3Tables m cs).mem := by
  rw [ring3Tables_mem]
  have hset : AgreesOff (Set.Ico LDT_BASE (LDT_BASE + 256 * 8)) (fill m.mem LDT_BASE LDT_BYTES 0) _ :=
    storeSlots_off (starterSlots_length cs (m.segVal .ds) (m.segVal .ss) (entryPsp m)
      (if m.currentEnvSeg ≠ 0 then m.currentEnvSeg else ENV_SEG)) (by simp [starterSet])
  have hldt := (fill_off m.mem LDT_BASE LDT_BYTES 0).trans hset
  exact hldt.union (writew_off _ _ _)

/-- The client's descriptors are in place. -/
theorem ring3Tables_ldt {m : Machine} {cs i base access : Nat} {big : Bool}
    (hpsp : m.currentPspSeg < 65536)
    (h : (i, base, access, big) ∈ starterSet cs (m.segVal .ds) (m.segVal .ss) (entryPsp m)
      (if m.currentEnvSeg ≠ 0 then m.currentEnvSeg else ENV_SEG)) :
    DescAt (ring3Tables m cs).mem (LDT_BASE + i * 8) base 0xFFFF access big := by
  have hslots : DescAt (storeSlots (fill m.mem LDT_BASE LDT_BYTES 0) LDT_BASE
      ((starterSet cs (m.segVal .ds) (m.segVal .ss) (entryPsp m)
        (if m.currentEnvSeg ≠ 0 then m.currentEnvSeg else ENV_SEG)).map
          fun d => (d.1, descriptorBytes d.2.1 0xFFFF d.2.2.1 d.2.2.2)))
      (LDT_BASE + i * 8) base 0xFFFF access big := by
    intro k hk
    rw [List.getD_eq_getElem _ 0 (by exact hk)]
    exact readb_storeSlots (descriptorBytes base 0xFFFF access big) (starterSlots_length _ _ _ _ _)
      (by simp [starterSet]) (List.mem_map.mpr ⟨_, h, rfl⟩) hk
  rw [ring3Tables_mem]
  refine hslots.frame (writew_off _ _ _) fun k hk hx => ?_
  have h₂ := hx.2
  have := entryPsp_lt hpsp
  simp only [LDT_BASE] at h₂
  omega

/-- The GDT stays as it is, its slot 3 excepted for a PSP at the top of the first megabyte. -/
theorem ring3Tables_gdt {m : Machine} (cs : Nat) {i base limit access : Nat} {big : Bool}
    (hpsp : m.currentPspSeg < 65536) (hi : 4 ≤ i ∧ i < 16)
    (h : DescAt m.mem (GDT_BASE + i * 8) base limit access big) :
    DescAt (ring3Tables m cs).mem (GDT_BASE + i * 8) base limit access big := by
  refine h.frame (ring3Tables_off m cs) fun k hk => ?_
  have := entryPsp_lt hpsp
  rintro (⟨h₁, -⟩ | ⟨-, h₂⟩)
  · simp only [GDT_BASE, LDT_BASE] at h₁
    omega
  · simp only [GDT_BASE] at h₂
    omega

theorem ring3Tables_cpu {m : Machine} (cs : Nat) (hg : m.cpu.gdtBase = GDT_BASE)
    (h₆ : DescAt m.mem (GDT_BASE + 6 * 8) LDT_BASE (LDT_BYTES - 1) 0x82 false) :
    (ring3Tables m cs).cpu = { m.cpu with
      cr0 := 1
      pmode := true
      ldtBase := LDT_BASE
      ldtLimit := LDT_BYTES - 1 } := by
  refine (installStarterSet_cpu _ _).trans ?_
  have hcr : (cpuSetCr0 m 1).cpu = { m.cpu with cr0 := 1, pmode := true } := rfl
  have hldt := cpuLldt_entry (m := cpuSetCr0 m 1) hg h₆
  rw [hcr] at hldt
  exact hldt

/-! ### The segment loads and the return -/

@[simp] theorem mirrorSeg_mem (m : Machine) (s : SegName) (r : SegReg × Bool) :
    (mirrorSeg m s r).mem = m.mem := rfl

/-- What the segment loads of the ring-3 path come to. -/
theorem ring3Segs_spec {eng : Engine} (heng : eng.Loads) {m : Machine} (ht : TablesLoaded m.cpu)
    (hp : m.cpu.pmode = true) (hcpl : m.cpu.cpl = 0) {ds psp : Nat} (hds : ds < 4294967296)
    (hpsp : psp < 4294967296)
    (h₈ : DescAt m.mem (GDT_BASE + 8 * 8) PM_CB_STACK_BASE (PM_CB_STACK_SIZE - 1) 0x92 true)
    (h₂ : DescAt m.mem (LDT_BASE + 2 * 8) ds 0xFFFF 0xF2 true)
    (h₄ : DescAt m.mem (LDT_BASE + 4 * 8) psp 0xFFFF 0xF2 false) :
    let r := ring3Segs eng m
    r.mem = m.mem ∧ TablesLoaded r.cpu ∧ r.cpu.pmode = true ∧ r.cpu.cpl = 0 ∧ r.cpu.stackBig = true ∧
      r.segPhys .ss = PM_CB_STACK_BASE ∧ r.segPhys .ds = ds ∧ r.r32 .esp = PM_CB_STACK_SIZE - 32 := by
  have hss := load_desc heng ht hp .ss PM_CB_STACK (by decide) (by decide) h₈ (by decide)
    (by decide) (by rw [hcpl]; decide)
  have hdsl := load_desc (m := (mirrorSeg m .ss (⟨BitVec.ofNat 16 PM_CB_STACK,
      BitVec.ofNat 32 PM_CB_STACK_BASE⟩, true)).setR32 .esp (PM_CB_STACK_SIZE - 32)) heng
    ⟨ht.gdtBase, ht.gdtLimit, ht.ldtBase, ht.ldtLimit⟩ hp .ds 0x17 (by decide)
    (by decide) h₂ hds (by decide) (by
      show accessAllowed .ds m.cpu.cpl 0x17 0xF2 = true
      rw [hcpl]
      rfl)
  have hesl := load_desc (m := mirrorSeg ((mirrorSeg m .ss (⟨BitVec.ofNat 16 PM_CB_STACK,
      BitVec.ofNat 32 PM_CB_STACK_BASE⟩, true)).setR32 .esp (PM_CB_STACK_SIZE - 32))
      .ds (⟨BitVec.ofNat 16 0x17, BitVec.ofNat 32 ds⟩, true)) heng
    ⟨ht.gdtBase, ht.gdtLimit, ht.ldtBase, ht.ldtLimit⟩ hp .es 0x27 (by decide)
    (by decide) h₄ hpsp (by decide) (by
      show accessAllowed .es m.cpu.cpl 0x27 0xF2 = true
      rw [hcpl]
      rfl)
  intro r
  have hr : r = mirrorSeg (mirrorSeg ((mirrorSeg m .ss (⟨BitVec.ofNat 16 PM_CB_STACK,
      BitVec.ofNat 32 PM_CB_STACK_BASE⟩, true)).setR32 .esp (PM_CB_STACK_SIZE - 32))
      .ds (⟨BitVec.ofNat 16 0x17, BitVec.ofNat 32 ds⟩, true))
      .es (⟨BitVec.ofNat 16 0x27, BitVec.ofNat 32 psp⟩, false) := by
    show ring3Segs eng m = _
    unfold ring3Segs
    dsimp only
    rw [hss, hdsl, hesl]
  rw [hr]
  refine ⟨rfl, ⟨ht.gdtBase, ht.gdtLimit, ht.ldtBase, ht.ldtLimit⟩, hp, hcpl, rfl, rfl, ?_, rfl⟩
  show (BitVec.ofNat 32 ds).toNat = ds
  rw [BitVec.toNat_ofNat]
  exact Nat.mod_eq_of_lt hds

/-- An IRETD from ring 0 through a staged frame to the client's selectors at ring 3. -/
theorem cpuIret32_client {eng : Engine} (heng : eng.Loads) (ip sp : Nat) {m : Machine}
    (ht : TablesLoaded m.cpu) (hp : m.cpu.pmode = true) (hcpl : m.cpu.cpl = 0) {cs ss : Nat} (hcs : cs < 4294967296)
    (hss : ss < 4294967296)
    (hip : readd m.mem (lin (m.segPhys .ss + stackOffset m + 0)) = ip)
    (hsel : readd m.mem (lin (m.segPhys .ss + stackOffset m + 4)) = 0x0F)
    (hfl : readd m.mem (lin (m.segPhys .ss + stackOffset m + 8)) = 0x3002)
    (hsp : readd m.mem (lin (m.segPhys .ss + stackOffset m + 12)) = sp)
    (hstk : readd m.mem (lin (m.segPhys .ss + stackOffset m + 16)) = 0x1F)
    (h₁ : DescAt m.mem (LDT_BASE + 1 * 8) cs 0xFFFF 0xFA false)
    (h₃ : DescAt m.mem (LDT_BASE + 3 * 8) ss 0xFFFF 0xF2 true) :
    let r := cpuIret32 eng m
    r.mem = m.mem ∧ TablesLoaded r.cpu ∧ r.cpu.pmode = true ∧ r.cpu.eip = BitVec.ofNat 32 ip ∧
      r.cpu.flags = BitVec.ofNat 32 0x3002 ∧ r.segPhys .cs = cs ∧ r.segPhys .ss = ss ∧
      r.segPhys .ds = m.segPhys .ds ∧ r.r32 .esp = sp % 4294967296 := by
  have hload₁ := load_desc (m := setCpl m 3) heng ⟨ht.gdtBase, ht.gdtLimit, ht.ldtBase, ht.ldtLimit⟩ hp
    .cs 0x0F (by decide) (by decide) h₁ hcs (by decide) rfl
  have hload₃ := load_desc (m := mirrorSeg (setCpl m 3) .cs (⟨BitVec.ofNat 16 0x0F, BitVec.ofNat 32 cs⟩,
    false)) heng ⟨ht.gdtBase, ht.gdtLimit, ht.ldtBase, ht.ldtLimit⟩ hp
    .ss 0x1F (by decide) (by decide) h₃ hss (by decide) rfl
  intro r
  have hr : r = (((mirrorSeg (mirrorSeg (setCpl m 3) .cs (⟨BitVec.ofNat 16 0x0F, BitVec.ofNat 32 cs⟩,
      false)) .ss (⟨BitVec.ofNat 16 0x1F, BitVec.ofNat 32 ss⟩, true)).setR32 .esp sp).setEip
      (BitVec.ofNat 32 ip)).setFlags (BitVec.ofNat 32 0x3002) := by
    show cpuIret32 eng m = _
    unfold cpuIret32
    dsimp only
    simp only [hip, hsel, hfl, hsp, hstk, hp, hcpl, if_true, true_and,
      show (0x0F : Nat) % 65536 % 4 = 3 from rfl, show (0 : Nat) < 3 by decide,
      show (0x0F : Nat) % 65536 = 0x0F from rfl, show (0x1F : Nat) % 65536 = 0x1F from rfl, hload₁, hload₃]
  have hofNat : ∀ n, n < 4294967296 → (BitVec.ofNat 32 n).toNat = n := fun n hn => by
    rw [BitVec.toNat_ofNat]
    exact Nat.mod_eq_of_lt hn
  rw [hr]
  refine ⟨rfl, ⟨ht.gdtBase, ht.gdtLimit, ht.ldtBase, ht.ldtLimit⟩, hp, rfl, rfl, hofNat cs hcs,
    hofNat ss hss, rfl, ?_⟩
  show (BitVec.ofNat 32 sp).toNat = _
  rw [BitVec.toNat_ofNat]

/-- The staged frame reads back, and nothing else is written. -/
theorem returnFrame_eq {m : Machine} (hss : m.segPhys .ss = PM_CB_STACK_BASE)
    (hesp : m.r32 .esp = PM_CB_STACK_SIZE - 32) (ip : Nat) : returnFrame m ip =
      storeDwords m.mem (PM_CB_STACK_BASE + 0xFE0) [ip, 0x0F, 0x3002, 0xFE0, 0x1F] := by
  have hsp : m.sp = 0xFE0 := by
    simp only [sp, r16, hesp, PM_CB_STACK_SIZE]
  unfold returnFrame
  rw [hss, hesp, hsp]
  rfl

/-! ### A real-mode client -/

/-- Where the far call has pushed the client's return address. -/
def returnSlot (m : Machine) : Nat := m.segVal .ss * 16 + m.sp

/-- The return IP and CS on the client's stack. -/
def returnIp (m : Machine) : Nat := readw m.mem (returnSlot m)
def returnCs (m : Machine) : Nat := readw m.mem (returnSlot m + 2)

/-- A client at its far call: real mode has privilege level 0, the PSP is a segment, and the return
    address lies in the first megabyte, in one piece. -/
structure RealClient (m : Machine) : Prop where
  cpl : m.cpu.cpl = 0
  psp : m.currentPspSeg < 65536
  low : returnSlot m + 4 ≤ GDT_BASE
  room : m.sp + 4 ≤ 65536

/-- The client asked for 32 bits. -/
def wants32 (m : Machine) : Bool := m.ax = 1

/-- The client continues at ring 3. -/
def goesRing3 (m : Machine) : Bool := wants32 m && !m.dpmiRing0

theorem dosizDpmiEntry_eq (eng : Engine) (m : Machine) : dosizDpmiEntry eng m =
    if goesRing3 m then enterRing3 eng (entryTables m (wants32 m) (returnCs m)) (returnCs m)
      (readw (entryTables m (wants32 m) (returnCs m)).mem (returnSlot m))
    else enterRing0 eng (entryTables m (wants32 m) (returnCs m)) := by
  have hcpu := entryTables_cpu m (wants32 m) (returnCs m)
  have hslot : (entryTables m (wants32 m) (returnCs m)).segVal .ss * 16 +
      (entryTables m (wants32 m) (returnCs m)).sp = returnSlot m := by
    simp only [segVal, sp, r16, r32, hcpu, returnSlot]
  unfold dosizDpmiEntry
  dsimp only
  have hd : (entryTables m (wants32 m) (returnCs m)).dpmiRing0 = m.dpmiRing0 := by
    have h := ((sameGlobals_pmSetupGdtAndIdt m (wants32 m) (returnCs m) (m.segVal .ds) (m.segVal .ss)
      (m.segVal .es)).entryFrame.trans (entryFrame_resetLdt _)).trans
      (sameGlobals_catchAllGates _ (wants32 m)).entryFrame
    rw [entryTables, h.eq]
  show (if (wants32 m = true ∧ (!(entryTables m (wants32 m) (returnCs m)).dpmiRing0) = true) then
      enterRing3 eng (entryTables m (wants32 m) (returnCs m)) (returnCs m)
        (readw (entryTables m (wants32 m) (returnCs m)).mem
          ((entryTables m (wants32 m) (returnCs m)).segVal .ss * 16 +
            (entryTables m (wants32 m) (returnCs m)).sp))
      else enterRing0 eng (entryTables m (wants32 m) (returnCs m))) = _
  rw [hd, hslot]
  simp only [goesRing3, Bool.and_eq_true]

/-! ### Ring 3 -/

theorem entryTables_entryFrame (m : Machine) (bits32 : Bool) (cs : Nat) :
    EntryFrame m (entryTables m bits32 cs) :=
  ((sameGlobals_pmSetupGdtAndIdt m bits32 cs _ _ _).entryFrame.trans (entryFrame_resetLdt _)).trans
    (sameGlobals_catchAllGates _ bits32).entryFrame

theorem entryTables_segVal (m : Machine) (bits32 : Bool) (cs : Nat) (s : SegName) :
    (entryTables m bits32 cs).segVal s = m.segVal s := by
  simp only [segVal, entryTables_cpu]

theorem entryPsp_entryTables (m : Machine) (bits32 : Bool) (cs : Nat) :
    entryPsp (entryTables m bits32 cs) = entryPsp m := by
  have h := (entryTables_entryFrame m bits32 cs).eq
  unfold entryPsp
  rw [h]

theorem seg_lt (m : Machine) (s : SegName) : m.segVal s * 16 < 4294967296 := by
  have := m.segVal_lt s
  omega

/-- The far return address survives the tables. -/
theorem returnIp_entryTables {m : Machine} (hc : RealClient m) (bits32 : Bool) (cs : Nat) :
    readw (entryTables m bits32 cs).mem (returnSlot m) = returnIp m := by
  have hlow := hc.low
  refine (entryTables_off m bits32 cs).readw (fun hx => ?_) fun hx => ?_
  · have := hx.1
    omega
  · have := hx.1
    omega

/-- The host's stack frame lies in the host's memory. -/
theorem frame_subset : Set.Ico (PM_CB_STACK_BASE + 0xFE0) (PM_CB_STACK_BASE + 0xFE0 + 4 * 5) ⊆ hostBytes :=
  Set.Ico_subset_Ico (by decide) (by decide)

/-- What a ring-3 client finds: the return IP, its segments, flags 3002h, ESP = FE0h; memory outside
    the host's own changed in its PSP's word 2Ch only. -/
theorem ring3_result {eng : Engine} (heng : eng.Loads) {m : Machine} (hc : RealClient m)
    (h3 : goesRing3 m = true) :
    let r := dosizDpmiEntry eng m
    r.cpu.pmode = true ∧ r.cpu.eip = BitVec.ofNat 32 (returnIp m) ∧ r.segPhys .cs = returnCs m * 16 ∧
      r.segPhys .ds = m.segVal .ds * 16 ∧ r.segPhys .ss = m.segVal .ss * 16 ∧
      r.r32 .esp = 0xFE0 ∧ r.cpu.flags = BitVec.ofNat 32 0x3002 ∧ TablesLoaded r.cpu ∧
      AgreesOff (hostBytes ∪ pspWord m) m.mem r.mem ∧ ∀ v < 256, HostGate r.mem v := by
  have ht : (entryTables m (wants32 m) (returnCs m)).cpu = _ := entryTables_cpu m (wants32 m) (returnCs m)
  have hsv := entryTables_segVal m (wants32 m) (returnCs m)
  have hpspEq := entryPsp_entryTables m (wants32 m) (returnCs m)
  have hpspLt : (entryTables m (wants32 m) (returnCs m)).currentPspSeg < 65536 := by
    rw [(entryTables_entryFrame m (wants32 m) (returnCs m)).eq]
    exact hc.psp
  have hcsLt : returnCs m * 16 < 4294967296 := by
    have := readw_lt m.mem (returnSlot m + 2)
    unfold returnCs
    omega
  have hgates : ∀ v < 256, HostGate (entryTables m (wants32 m) (returnCs m)).mem v :=
    fun v hv => entryTables_gates m (wants32 m) (returnCs m) hv
  have hoff₀ := entryTables_off m (wants32 m) (returnCs m)
  have h₆ : DescAt (entryTables m (wants32 m) (returnCs m)).mem (GDT_BASE + 6 * 8) LDT_BASE
      (LDT_BYTES - 1) 0x82 false := entryTables_gdt (by simp [gdtEntries])
  have h₈ : DescAt (entryTables m (wants32 m) (returnCs m)).mem (GDT_BASE + 8 * 8) PM_CB_STACK_BASE
      (PM_CB_STACK_SIZE - 1) 0x92 true := entryTables_gdt (by simp [gdtEntries])
  rw [dosizDpmiEntry_eq, if_pos h3, enterRing3_eq, returnIp_entryTables hc]
  generalize entryTables m (wants32 m) (returnCs m) = t at *
  have hcpu := ring3Tables_cpu (returnCs m) (by rw [ht]) h₆
  have hoff₁ := ring3Tables_off t (returnCs m)
  have hd₈ := ring3Tables_gdt (returnCs m) hpspLt (by decide) h₈
  have hd₁ : DescAt (ring3Tables t (returnCs m)).mem (LDT_BASE + 1 * 8) (returnCs m * 16) 0xFFFF 0xFA
      false := ring3Tables_ldt hpspLt (by simp [starterSet])
  have hd₂ : DescAt (ring3Tables t (returnCs m)).mem (LDT_BASE + 2 * 8) (t.segVal .ds * 16) 0xFFFF 0xF2
      true := ring3Tables_ldt hpspLt (by simp [starterSet])
  have hd₃ : DescAt (ring3Tables t (returnCs m)).mem (LDT_BASE + 3 * 8) (t.segVal .ss * 16) 0xFFFF 0xF2
      true := ring3Tables_ldt hpspLt (by simp [starterSet])
  have hd₄ : DescAt (ring3Tables t (returnCs m)).mem (LDT_BASE + 4 * 8) (entryPsp t * 16) 0xFFFF 0xF2
      false := ring3Tables_ldt hpspLt (by simp [starterSet])
  have hdsLt := seg_lt t .ds
  have hssLt := seg_lt t .ss
  have hpsLt : entryPsp t * 16 < 4294967296 := by
    have := entryPsp_lt hpspLt
    omega
  have hu : TablesLoaded (ring3Tables t (returnCs m)).cpu := by
    rw [hcpu, ht]
    exact ⟨rfl, rfl, rfl, rfl⟩
  have hup : (ring3Tables t (returnCs m)).cpu.pmode = true := by rw [hcpu]
  have huc : (ring3Tables t (returnCs m)).cpu.cpl = 0 := by
    rw [hcpu, ht]
    exact hc.cpl
  generalize ring3Tables t (returnCs m) = u at *
  obtain ⟨hfm, hft, hfp, hfc, hfb, hfss, hfds, hfesp⟩ :=
    ring3Segs_spec heng hu hup huc hdsLt hpsLt hd₈ hd₂ hd₄
  generalize ring3Segs eng u = f at *
  have hframe := returnFrame_eq hfss hfesp (returnIp m)
  rw [hframe, hfm]
  have hA : ∀ k, k < 32 → lin ((f.setMem (storeDwords u.mem (PM_CB_STACK_BASE + 0xFE0)
      [returnIp m, 0x0F, 0x3002, 0xFE0, 0x1F])).segPhys .ss + stackOffset (f.setMem (storeDwords u.mem
      (PM_CB_STACK_BASE + 0xFE0) [returnIp m, 0x0F, 0x3002, 0xFE0, 0x1F])) + k) =
      PM_CB_STACK_BASE + 0xFE0 + k := by
    intro k hk
    have hoffset : stackOffset (f.setMem (storeDwords u.mem (PM_CB_STACK_BASE + 0xFE0)
        [returnIp m, 0x0F, 0x3002, 0xFE0, 0x1F])) = 0xFE0 := by
      show (if f.cpu.stackBig then f.r32 .esp else f.sp) = 0xFE0
      rw [if_pos hfb]
      exact hfesp
    rw [hoffset]
    show lin (f.segPhys .ss + 0xFE0 + k) = _
    rw [hfss]
    exact lin_of_lt (by simp only [PM_CB_STACK_BASE]; omega)
  have hread := fun i (hi : i < 5) => readd_storeDwords u.mem (PM_CB_STACK_BASE + 0xFE0)
    [returnIp m, 0x0F, 0x3002, 0xFE0, 0x1F] (i := i) hi
  have hoff₂ := storeDwords_off u.mem (PM_CB_STACK_BASE + 0xFE0) [returnIp m, 0x0F, 0x3002, 0xFE0, 0x1F]
  have hipLt : returnIp m < 4294967296 := Nat.lt_of_lt_of_le (readw_lt _ _) (by decide)
  have hkeep : ∀ i < 4, ∀ k < 8, LDT_BASE + i * 8 + k ∉ Set.Ico (PM_CB_STACK_BASE + 0xFE0)
      (PM_CB_STACK_BASE + 0xFE0 + 4 * [returnIp m, 0x0F, 0x3002, 0xFE0, 0x1F].length) := by
    intro i hi k hk hx
    have := hx.1
    simp only [LDT_BASE, PM_CB_STACK_BASE] at this
    omega
  obtain ⟨hrm, hrt, hrp, hreip, hrfl, hrcs, hrss, hrds, hresp⟩ := cpuIret32_client
    (m := f.setMem (storeDwords u.mem (PM_CB_STACK_BASE + 0xFE0)
      [returnIp m, 0x0F, 0x3002, 0xFE0, 0x1F])) heng (returnIp m) 0xFE0 hft hfp hfc hcsLt hssLt
    (by rw [hA 0 (by decide)]; exact (hread 0 (by decide)).trans (Nat.mod_eq_of_lt hipLt))
    (by rw [hA 4 (by decide)]; exact hread 1 (by decide))
    (by rw [hA 8 (by decide)]; exact hread 2 (by decide))
    (by rw [hA 12 (by decide)]; exact hread 3 (by decide))
    (by rw [hA 16 (by decide)]; exact hread 4 (by decide))
    (hd₁.frame hoff₂ (hkeep 1 (by decide))) (hd₃.frame hoff₂ (hkeep 3 (by decide)))
  have hpw : pspWord t = pspWord m := by
    unfold pspWord
    rw [hpspEq]
  have hmem : AgreesOff (hostBytes ∪ pspWord m) m.mem (storeDwords u.mem (PM_CB_STACK_BASE + 0xFE0)
      [returnIp m, 0x0F, 0x3002, 0xFE0, 0x1F]) := by
    refine ((hoff₀.mono Set.subset_union_left).trans (hoff₁.mono ?_)).trans
      (hoff₂.mono fun x hx => Or.inl (frame_subset hx))
    rw [hpw]
    refine Set.union_subset_union_left _ (Set.Ico_subset_Ico (by decide) (by decide))
  intro r
  refine ⟨hrp, hreip, hrcs, ?_, ?_, ?_, hrfl, ⟨hrt.gdtBase, hrt.gdtLimit, hrt.ldtBase, hrt.ldtLimit⟩, ?_, ?_⟩
  · exact hrds.trans (hfds.trans (by rw [hsv]))
  · exact hrss.trans (by rw [hsv])
  · exact hresp
  · show AgreesOff _ m.mem (cpuIret32 eng _).mem
    rw [hrm]
    exact hmem
  · intro v hv
    show HostGate (cpuIret32 eng _).mem v
    rw [hrm]
    have hpl := entryPsp_lt hpspLt
    have hgate : ∀ k < 8, IDT_BASE + v * 8 + k ∉ Set.Ico LDT_BASE (LDT_BASE + LDT_BYTES) ∪ pspWord t := by
      rintro k hk (⟨h₁, -⟩ | ⟨-, h₂⟩)
      · simp only [LDT_BASE, IDT_BASE] at h₁
        omega
      · simp only [IDT_BASE] at h₂
        omega
    have hgate' : ∀ k < 8, IDT_BASE + v * 8 + k ∉ Set.Ico (PM_CB_STACK_BASE + 0xFE0)
        (PM_CB_STACK_BASE + 0xFE0 + 4 * [returnIp m, 0x0F, 0x3002, 0xFE0, 0x1F].length) := by
      intro k hk hx
      have := hx.1
      simp only [IDT_BASE, PM_CB_STACK_BASE] at this
      omega
    exact ((hgates v hv).frame hoff₁ (hgate 4 (by decide)) (hgate 5 (by decide))).frame hoff₂
      (hgate' 4 (by decide)) (hgate' 5 (by decide))

/-! ### Ring 0 -/

/-- A 16-bit RETF: IP and CS from the stack, CS loaded by the engine. -/
def cpuRetf (eng : Engine) (m : Machine) : Machine :=
  let ip := readw m.mem (lin (m.segPhys .ss + stackOffset m))
  let cs := readw m.mem (lin (m.segPhys .ss + wrapStack m (stackOffset m + 2)))
  (setStack (cpuSetSegGeneral eng m .cs cs) (stackOffset m + 4)).setEip (BitVec.ofNat 32 ip)

/-- The state the client's next instruction runs in. -/
def afterEntry (eng : Engine) (m : Machine) : Machine :=
  if goesRing3 m then dosizDpmiEntry eng m else cpuRetf eng (dosizDpmiEntry eng m)

/-- The ring-0 path up to its segment loads. -/
def ring0Tables (m : Machine) : Machine :=
  cpuLldt (cpuSetCr0 (m.setMem (writeb (writeb m.mem (m.segVal .ss * 16 + m.sp + 2) PM_CS_SEL)
    (m.segVal .ss * 16 + m.sp + 2 + 1) 0)) 1) PM_LDT_SEL

/-- The loads of DS, SS and ES. -/
def ring0Segs (eng : Engine) (m : Machine) : Machine :=
  cpuSetSegGeneral eng (cpuSetSegGeneral eng (cpuSetSegGeneral eng m .ds PM_DS_SEL) .ss PM_SS_SEL) .es
    PM_ES_SEL

theorem enterRing0_eq (eng : Engine) (m : Machine) :
    enterRing0 eng m = setCf ((ring0Segs eng (ring0Tables m)).setR16 .eax 0) false := rfl

/-- What the segment loads of the ring-0 path come to. -/
theorem ring0Segs_spec {eng : Engine} (heng : eng.Loads) {m : Machine} (ht : TablesLoaded m.cpu)
    (hp : m.cpu.pmode = true) (hcpl : m.cpu.cpl = 0) {ds ss es : Nat} (hds : ds < 4294967296)
    (hss : ss < 4294967296) (hes : es < 4294967296)
    (h₂ : DescAt m.mem (GDT_BASE + 2 * 8) ds 0xFFFF 0x92 false)
    (h₃ : DescAt m.mem (GDT_BASE + 3 * 8) ss 0xFFFF 0x92 false)
    (h₄ : DescAt m.mem (GDT_BASE + 4 * 8) es 0xFFFF 0x92 false) :
    let r := ring0Segs eng m
    r.mem = m.mem ∧ TablesLoaded r.cpu ∧ r.cpu.pmode = true ∧ r.cpu.cpl = 0 ∧ r.cpu.stackBig = false ∧
      r.segPhys .ss = ss ∧ r.segPhys .ds = ds ∧ r.cpu.regs = m.cpu.regs ∧ r.cpu.flags = m.cpu.flags := by
  have hallow : ∀ s : SegName, s ≠ .cs → ∀ sel, sel % 4 = 0 →
      accessAllowed s m.cpu.cpl sel 0x92 = true := by
    intro s hs sel hsel
    rw [hcpl]
    cases s <;> first | exact absurd rfl hs | simp [accessAllowed, hsel]
  have hdsl := load_desc heng ht hp .ds PM_DS_SEL (by decide) (by decide) h₂ hds
    (by decide) (hallow .ds (by decide) _ (by decide))
  have hssl := load_desc (m := mirrorSeg m .ds (⟨BitVec.ofNat 16 PM_DS_SEL, BitVec.ofNat 32 ds⟩, false))
    heng ⟨ht.gdtBase, ht.gdtLimit, ht.ldtBase, ht.ldtLimit⟩ hp .ss PM_SS_SEL (by decide)
    (by decide) h₃ hss (by decide) (hallow .ss (by decide) _ (by decide))
  have hesl := load_desc (m := mirrorSeg (mirrorSeg m .ds (⟨BitVec.ofNat 16 PM_DS_SEL,
      BitVec.ofNat 32 ds⟩, false)) .ss (⟨BitVec.ofNat 16 PM_SS_SEL, BitVec.ofNat 32 ss⟩, false))
    heng ⟨ht.gdtBase, ht.gdtLimit, ht.ldtBase, ht.ldtLimit⟩ hp .es PM_ES_SEL (by decide)
    (by decide) h₄ hes (by decide) (hallow .es (by decide) _ (by decide))
  have hofNat : ∀ n, n < 4294967296 → (BitVec.ofNat 32 n).toNat = n := fun n hn => by
    rw [BitVec.toNat_ofNat]
    exact Nat.mod_eq_of_lt hn
  intro r
  have hr : r = mirrorSeg (mirrorSeg (mirrorSeg m .ds (⟨BitVec.ofNat 16 PM_DS_SEL,
      BitVec.ofNat 32 ds⟩, false)) .ss (⟨BitVec.ofNat 16 PM_SS_SEL, BitVec.ofNat 32 ss⟩, false))
      .es (⟨BitVec.ofNat 16 PM_ES_SEL, BitVec.ofNat 32 es⟩, false) := by
    show ring0Segs eng m = _
    unfold ring0Segs
    rw [hdsl, hssl, hesl]
  rw [hr]
  exact ⟨rfl, ⟨ht.gdtBase, ht.gdtLimit, ht.ldtBase, ht.ldtLimit⟩, hp, hcpl, rfl, hofNat ss hss,
    hofNat ds hds, rfl, rfl⟩

/-- The byte `set_cf` edits: the client's stack above the return address. -/
def carrySlot (m : Machine) : Nat := returnSlot m + if m.intGateBits32 then 8 else 4

/-- The word of the return address that the ring-0 path replaces. -/
def patchedCs (m : Machine) : Set Nat := Set.Ico (returnSlot m + 2) (returnSlot m + 4)

/-- What a ring-0 client finds: the return IP, its segments, SP + 4, its own flags; memory outside the
    host's own changed in the return address's CS word, and in the byte at `carrySlot`. -/
theorem ring0_result {eng : Engine} (heng : eng.Loads) {m : Machine} (hc : RealClient m)
    (h0 : goesRing3 m = false) :
    let r := cpuRetf eng (dosizDpmiEntry eng m)
    r.cpu.pmode = true ∧ r.cpu.eip = BitVec.ofNat 32 (returnIp m) ∧ r.segPhys .cs = returnCs m * 16 ∧
      r.segPhys .ds = m.segVal .ds * 16 ∧ r.segPhys .ss = m.segVal .ss * 16 ∧
      r.sp = (m.sp + 4) % 65536 ∧ r.cpu.flags = m.cpu.flags ∧
      readw r.mem (returnSlot m + 2) = PM_CS_SEL ∧
      r.mem = (dosizDpmiEntry eng m).mem ∧ TablesLoaded (dosizDpmiEntry eng m).cpu ∧
      AgreesOff (hostBytes ∪ (patchedCs m ∪ {carrySlot m})) m.mem (dosizDpmiEntry eng m).mem ∧
      ∀ v < 256, HostGate (dosizDpmiEntry eng m).mem v := by
  have hlow := hc.low
  have hroom := hc.room
  have ht := entryTables_cpu m (wants32 m) (returnCs m)
  have hsv := entryTables_segVal m (wants32 m) (returnCs m)
  have hcsLt : returnCs m * 16 < 4294967296 := by
    have := readw_lt m.mem (returnSlot m + 2)
    unfold returnCs
    omega
  have hgates : ∀ v < 256, HostGate (entryTables m (wants32 m) (returnCs m)).mem v :=
    fun v hv => entryTables_gates m (wants32 m) (returnCs m) hv
  have hoff₀ := entryTables_off m (wants32 m) (returnCs m)
  have hip₀ := returnIp_entryTables hc (wants32 m) (returnCs m)
  have h₁ : DescAt (entryTables m (wants32 m) (returnCs m)).mem (GDT_BASE + 1 * 8) (returnCs m * 16)
      0xFFFF 0x9A (wants32 m) := entryTables_gdt (by simp [gdtEntries])
  have h₂ : DescAt (entryTables m (wants32 m) (returnCs m)).mem (GDT_BASE + 2 * 8) (m.segVal .ds * 16)
      0xFFFF 0x92 false := entryTables_gdt (by simp [gdtEntries])
  have h₃ : DescAt (entryTables m (wants32 m) (returnCs m)).mem (GDT_BASE + 3 * 8) (m.segVal .ss * 16)
      0xFFFF 0x92 false := entryTables_gdt (by simp [gdtEntries])
  have h₄ : DescAt (entryTables m (wants32 m) (returnCs m)).mem (GDT_BASE + 4 * 8) (m.segVal .es * 16)
      0xFFFF 0x92 false := entryTables_gdt (by simp [gdtEntries])
  have h₆ : DescAt (entryTables m (wants32 m) (returnCs m)).mem (GDT_BASE + 6 * 8) LDT_BASE
      (LDT_BYTES - 1) 0x82 false := entryTables_gdt (by simp [gdtEntries])
  have hgb : (entryTables m (wants32 m) (returnCs m)).intGateBits32 = m.intGateBits32 := by
    rw [(entryTables_entryFrame m (wants32 m) (returnCs m)).eq]
  have hslot : (entryTables m (wants32 m) (returnCs m)).segVal .ss * 16 +
      (entryTables m (wants32 m) (returnCs m)).sp = returnSlot m := by
    simp only [segVal, sp, r16, r32, ht, returnSlot]
  rw [dosizDpmiEntry_eq, if_neg (by simp [h0]), enterRing0_eq]
  generalize entryTables m (wants32 m) (returnCs m) = t at *
  -- the patched return address
  have hpatch : (ring0Tables t).mem =
      writeb (writeb t.mem (returnSlot m + 2) PM_CS_SEL) (returnSlot m + 2 + 1) 0 := by
    rw [← hslot]
    rfl
  have hoff₁ : AgreesOff (patchedCs m) t.mem (ring0Tables t).mem := by
    rw [hpatch]
    refine ((writeb_off _ _ _).mono ?_).trans ((writeb_off _ _ _).mono ?_)
    · exact Set.Ico_subset_Ico le_rfl (by omega)
    · exact Set.Ico_subset_Ico (by omega) le_rfl
  have hkeep : ∀ i, 1 ≤ i → ∀ k < 8, GDT_BASE + i * 8 + k ∉ patchedCs m := by
    intro i hi k hk hx
    have := hx.2
    omega
  have hcpu : (ring0Tables t).cpu = { t.cpu with
      cr0 := 1
      pmode := true
      ldtBase := LDT_BASE
      ldtLimit := LDT_BYTES - 1 } :=
    cpuLldt_entry (m := cpuSetCr0 (t.setMem (ring0Tables t).mem) 1) (by
      show t.cpu.gdtBase = GDT_BASE
      rw [ht]) (h₆.frame hoff₁ (hkeep 6 (by decide)))
  have hu : TablesLoaded (ring0Tables t).cpu := by
    rw [hcpu, ht]
    exact ⟨rfl, rfl, rfl, rfl⟩
  have hup : (ring0Tables t).cpu.pmode = true := by rw [hcpu]
  have huc : (ring0Tables t).cpu.cpl = 0 := by
    rw [hcpu, ht]
    exact hc.cpl
  have hregs : (ring0Tables t).cpu.regs = m.cpu.regs := by rw [hcpu, ht]
  have hflags : (ring0Tables t).cpu.flags = m.cpu.flags := by rw [hcpu, ht]
  have hgb₁ : (ring0Tables t).intGateBits32 = m.intGateBits32 := hgb
  have hd₁ := h₁.frame hoff₁ (hkeep 1 (by decide))
  have hd₂ := h₂.frame hoff₁ (hkeep 2 (by decide))
  have hd₃ := h₃.frame hoff₁ (hkeep 3 (by decide))
  have hd₄ := h₄.frame hoff₁ (hkeep 4 (by decide))
  generalize ring0Tables t = u at *
  obtain ⟨hfm, hft, hfp, hfc, hfb, hfss, hfds, hfregs, hfflags⟩ :=
    ring0Segs_spec heng hu hup huc (seg_lt m .ds) (seg_lt m .ss) (seg_lt m .es) hd₂ hd₃ hd₄
  have hgb₂ : (ring0Segs eng u).intGateBits32 = m.intGateBits32 := hgb₁
  generalize ring0Segs eng u = f at *
  -- the stack the answer's `set_cf` and the stub's RETF work on
  have hsp : (f.setR16 .eax 0).sp = m.sp := by
    rw [sp, r16_setR16_of_ne f 0 (by decide)]
    simp only [r16, r32, hfregs, hregs]
  have hslotLt : returnSlot m + 8 < 4294967296 := by
    simp only [GDT_BASE] at hlow
    omega
  have hfa : flagsAddr (f.setR16 .eax 0) = carrySlot m := by
    unfold flagsAddr carrySlot
    have hb : (f.setR16 .eax 0).cpu.stackBig = false := hfb
    have hpm : (f.setR16 .eax 0).cpu.pmode = true := hfp
    have hg32 : (f.setR16 .eax 0).intGateBits32 = m.intGateBits32 := hgb₂
    have hss : (f.setR16 .eax 0).segPhys .ss = m.segVal .ss * 16 := hfss
    rw [hb, hpm, hg32, hss]
    simp only [Bool.false_eq_true, if_false, Bool.true_and]
    rw [show (f.setR16 .eax 0).r16 .esp = m.sp from hsp]
    refine lin_of_lt ?_
    unfold returnSlot at hslotLt
    split <;> omega
  have hoff₂ : AgreesOff {carrySlot m} u.mem (setCf (f.setR16 .eax 0) false).mem := by
    have h := setCf_off (f.setR16 .eax 0) false
    rw [hfa] at h
    exact hfm ▸ h
  have hcarry : returnSlot m + 4 ≤ carrySlot m ∧ carrySlot m ≤ returnSlot m + 8 := by
    unfold carrySlot
    split <;> omega
  have hwb : (setCf (f.setR16 .eax 0) false).cpu.stackBig = false := hfb
  have hwsp : (setCf (f.setR16 .eax 0) false).sp = m.sp := hsp
  have hwss : (setCf (f.setR16 .eax 0) false).segPhys .ss = m.segVal .ss * 16 := hfss
  have hwt : TablesLoaded (setCf (f.setR16 .eax 0) false).cpu :=
    ⟨hft.gdtBase, hft.gdtLimit, hft.ldtBase, hft.ldtLimit⟩
  have hwp : (setCf (f.setR16 .eax 0) false).cpu.pmode = true := hfp
  have hwc : (setCf (f.setR16 .eax 0) false).cpu.cpl = 0 := hfc
  have hwds : (setCf (f.setR16 .eax 0) false).segPhys .ds = m.segVal .ds * 16 := hfds
  have hwfl : (setCf (f.setR16 .eax 0) false).cpu.flags = m.cpu.flags := hfflags.trans hflags
  have hwd := hd₁.frame hoff₂ fun k hk hx => by
    have := Set.mem_singleton_iff.mp hx
    omega
  generalize setCf (f.setR16 .eax 0) false = w at *
  have hoffset : stackOffset w = m.sp := by
    rw [stackOffset, hwb]
    exact hwsp
  have hat₀ : lin (w.segPhys .ss + stackOffset w) = returnSlot m := by
    rw [hwss, hoffset]
    exact lin_of_lt (by unfold returnSlot at hslotLt; omega)
  have hat₂ : lin (w.segPhys .ss + wrapStack w (stackOffset w + 2)) = returnSlot m + 2 := by
    rw [hwss, hoffset, wrapStack, hwb]
    simp only [Bool.false_eq_true, if_false]
    rw [Nat.mod_eq_of_lt (by omega)]
    exact lin_of_lt (by unfold returnSlot at hslotLt; omega)
  have hip : readw w.mem (returnSlot m) = returnIp m := by
    rw [← hip₀]
    refine ((hoff₁.union hoff₂).readw ?_ ?_)
    · rintro (hx | hx)
      · have := hx.1
        omega
      · have := Set.mem_singleton_iff.mp hx
        omega
    · rintro (hx | hx)
      · have := hx.1
        omega
      · have := Set.mem_singleton_iff.mp hx
        omega
  have hcs : readw w.mem (returnSlot m + 2) = PM_CS_SEL := by
    refine (hoff₂.readw (fun hx => ?_) fun hx => ?_).trans ?_
    · have := Set.mem_singleton_iff.mp hx
      omega
    · have := Set.mem_singleton_iff.mp hx
      omega
    · rw [hpatch]
      simp only [readw, readb_writeb, readb_writeb_of_ne (show returnSlot m + 2 ≠ returnSlot m + 2 + 1 by omega)]
      rfl
  have hload := load_desc heng hwt hwp .cs PM_CS_SEL (by decide) (by decide) hwd hcsLt
    (by decide) (by rw [hwc]; rfl)
  intro r
  have hr : r = (setStack (mirrorSeg w .cs (⟨BitVec.ofNat 16 PM_CS_SEL,
      BitVec.ofNat 32 (returnCs m * 16)⟩, wants32 m)) (m.sp + 4)).setEip (BitVec.ofNat 32 (returnIp m)) := by
    show cpuRetf eng w = _
    unfold cpuRetf
    dsimp only
    rw [hat₀, hat₂, hip, hcs, hload, hoffset]
  have hbig : (mirrorSeg w .cs (⟨BitVec.ofNat 16 PM_CS_SEL, BitVec.ofNat 32 (returnCs m * 16)⟩,
      wants32 m)).cpu.stackBig = false := hwb
  rw [hr, setStack, hbig]
  simp only [Bool.false_eq_true, if_false]
  refine ⟨hwp, rfl, ?_, hwds, hwss, ?_, hwfl, hcs, rfl, hwt, ?_, ?_⟩
  · show (BitVec.ofNat 32 (returnCs m * 16)).toNat = returnCs m * 16
    rw [BitVec.toNat_ofNat]
    exact Nat.mod_eq_of_lt hcsLt
  · exact r16_setR16 (mirrorSeg w .cs (⟨BitVec.ofNat 16 PM_CS_SEL,
      BitVec.ofNat 32 (returnCs m * 16)⟩, wants32 m)) .esp (m.sp + 4)
  · exact hoff₀.union (hoff₁.union hoff₂)
  · intro v hv
    have hout : ∀ k < 8, IDT_BASE + v * 8 + k ∉ patchedCs m ∪ {carrySlot m} := by
      rintro k hk (hx | hx)
      · have := hx.2
        simp only [GDT_BASE] at hlow
        simp only [IDT_BASE] at this
        omega
      · have := Set.mem_singleton_iff.mp hx
        simp only [GDT_BASE] at hlow
        simp only [IDT_BASE] at this
        omega
    exact (hgates v hv).frame (hoff₁.union hoff₂) (hout 4 (by decide)) (hout 5 (by decide))

/-! ### The client's first instruction -/

/-- The state the client expects: its return IP, its segments, SP + 4, CF clear, and its memory
    unchanged up to the environment word of its PSP. -/
structure EntersClean (m r : Machine) : Prop where
  pmode : r.cpu.pmode = true
  ip : r.cpu.eip = BitVec.ofNat 32 (returnIp m)
  cs : r.segPhys .cs = returnCs m * 16
  ds : r.segPhys .ds = m.segVal .ds * 16
  ss : r.segPhys .ss = m.segVal .ss * 16
  stack : stackOffset r = (m.sp + 4) % 65536
  carry : r.cpu.flags.getLsbD 0 = false
  memory : ∀ x < GDT_BASE, x ∉ pspWord m → r.mem x = m.mem x

/-- **Entering protected mode.**  Every client continues in protected mode at its return IP, with
    CS, DS and SS based at its real-mode segments.  At ring 3 CF is clear and its memory is
    unchanged up to its PSP's environment word; at ring 0 the far return address alone is popped,
    and its memory is unchanged up to the CS word of that address (and the byte `set_cf` edits). -/
theorem dpmiEntry_enters {eng : Engine} (heng : eng.Loads) {m : Machine} (hc : RealClient m) :
    let r := afterEntry eng m
    r.cpu.pmode = true ∧ r.cpu.eip = BitVec.ofNat 32 (returnIp m) ∧ r.segPhys .cs = returnCs m * 16 ∧
      r.segPhys .ds = m.segVal .ds * 16 ∧ r.segPhys .ss = m.segVal .ss * 16 ∧
      (goesRing3 m = true → r.cpu.flags.getLsbD 0 = false ∧
        ∀ x < GDT_BASE, x ∉ pspWord m → r.mem x = m.mem x) ∧
      (goesRing3 m = false → r.sp = (m.sp + 4) % 65536 ∧
        ∀ x < GDT_BASE, x ∉ patchedCs m → x ≠ carrySlot m → r.mem x = m.mem x) := by
  have hhost : ∀ x < GDT_BASE, x ∉ hostBytes := fun x hx hin => by
    have := hin.1
    omega
  intro r
  cases h3 : goesRing3 m with
  | true =>
    have hr : r = dosizDpmiEntry eng m := if_pos h3
    obtain ⟨hp, hip, hcs, hds, hss, -, hfl, -, hoff, -⟩ := ring3_result heng hc h3
    rw [hr]
    refine ⟨hp, hip, hcs, hds, hss, fun _ => ⟨?_, fun x hx hpsp => ?_⟩, fun h => by cases h⟩
    · rw [hfl]
      decide
    · exact hoff x fun hin => hin.elim (hhost x hx) hpsp
  | false =>
    have hr : r = cpuRetf eng (dosizDpmiEntry eng m) := if_neg (by simp [h3])
    obtain ⟨hp, hip, hcs, hds, hss, hsp, -, -, hmem, -, hoff, -⟩ := ring0_result heng hc h3
    rw [hr]
    refine ⟨hp, hip, hcs, hds, hss, fun h => (by cases h), fun _ => ⟨hsp, fun x hx hcs hcar => ?_⟩⟩
    rw [hmem]
    refine hoff x fun hin => ?_
    rcases hin with h | h | h
    · exact hhost x hx h
    · exact hcs h
    · exact hcar (Set.mem_singleton_iff.mp h)

theorem realClient_boot (v : Nat) : RealClient (bootMachine.setR16 .eax v) where
  cpl := rfl
  psp := show bootMachine.currentPspSeg < 65536 by decide
  low := by
    show bootMachine.segVal .ss * 16 + (bootMachine.setR16 .eax v).sp + 4 ≤ GDT_BASE
    rw [sp, r16_setR16_of_ne _ _ (by decide)]
    decide
  room := by
    rw [sp, r16_setR16_of_ne _ _ (by decide)]
    decide

/-- A client with its data at 2000h:0 and its stack at 3000h:0200h, where 1000h:0123h is to return to. -/
def calling (ax : BitVec 32) : Machine :=
  { bootMachine with
    mem := writed bootMachine.mem 0x30200 0x10000123
    cpu := { zeroCpu with
      regs := fun
        | .eax => ax
        | .esp => 0x200
        | _ => 0
      segs := fun
        | .cs => ⟨0x1000, 0x10000⟩
        | .ds => ⟨0x2000, 0x20000⟩
        | .ss => ⟨0x3000, 0x30000⟩
        | _ => ⟨0, 0⟩ }
    currentPspSeg := 0xFF0 }

theorem calling_sp (ax : BitVec 32) : (calling ax).sp = 0x200 :=
  (show (calling ax).sp = (0x200 : BitVec 32).toNat % 65536 from rfl).trans (by decide)

theorem calling_ss (ax : BitVec 32) : (calling ax).segVal .ss = 0x3000 :=
  (show (calling ax).segVal .ss = (0x3000 : BitVec 16).toNat from rfl).trans (by decide)

theorem calling_slot (ax : BitVec 32) : returnSlot (calling ax) = 0x30200 := by
  rw [returnSlot, calling_ss, calling_sp]

theorem calling_cs (ax : BitVec 32) : returnCs (calling ax) = 0x1000 := by
  rw [returnCs, calling_slot]
  show readw (writed bootMachine.mem 0x30200 0x10000123) (0x30200 + 2) = 0x1000
  decide +kernel

theorem realClient_calling (ax : BitVec 32) : RealClient (calling ax) where
  cpl := rfl
  psp := show 0xFF0 < 65536 by decide
  low := by
    rw [calling_slot]
    decide
  room := by
    rw [calling_sp]
    decide

/-- A 32-bit client goes on at ring 3 with CF clear, a 16-bit one at ring 0 with the return address popped. -/
theorem dpmiEntry_enters_calling :
    (afterEntry cpuEngine (calling 1)).cpu.eip = 0x123 ∧ (afterEntry cpuEngine (calling 1)).segPhys .cs = 0x10000 ∧
      (afterEntry cpuEngine (calling 1)).segPhys .ds = 0x20000 ∧
      (afterEntry cpuEngine (calling 1)).segPhys .ss = 0x30000 ∧
      (afterEntry cpuEngine (calling 1)).cpu.flags.getLsbD 0 = false ∧
      (afterEntry cpuEngine (calling 0)).segPhys .cs = 0x10000 ∧ (afterEntry cpuEngine (calling 0)).sp = 0x204 := by
  have hip : returnIp (calling 1) = 0x123 := by decide +kernel
  have hdata : (calling 1).segVal .ds * 16 = 0x20000 := by decide
  have hstack : (calling 1).segVal .ss * 16 = 0x30000 := by decide
  obtain ⟨-, hentry, hcode, hds, hss, hthree, -⟩ := dpmiEntry_enters cpuEngine_loads (realClient_calling 1)
  obtain ⟨-, -, hcode₀, -, -, -, hzero⟩ := dpmiEntry_enters cpuEngine_loads (realClient_calling 0)
  rw [hip] at hentry
  rw [calling_cs] at hcode hcode₀
  have hsp := (hzero (by decide)).1
  rw [calling_sp] at hsp
  exact ⟨hentry, hcode, hds.trans hdata, hss.trans hstack, (hthree (by decide)).1, hcode₀, hsp⟩

/-- A clean entry leaves the zeroed CS word of the return address as it was. -/
theorem EntersClean.cs_word {r : Machine} (h : EntersClean (bootMachine.setR16 .eax 0) r) :
    readw r.mem (returnSlot (bootMachine.setR16 .eax 0) + 2) ≠ PM_CS_SEL := by
  have hslot : returnSlot (bootMachine.setR16 .eax 0) = 0 := by decide
  have hpsp : ∀ x, x < 4 → x ∉ pspWord (bootMachine.setR16 .eax 0) := by
    intro x hx hin
    have h₁ : PSP_SEG * 16 + 0x2C ≤ x := hin.1
    simp only [PSP_SEG] at h₁
    omega
  have h₂ := h.memory 2 (by decide) (hpsp 2 (by decide))
  have h₃ := h.memory 3 (by decide) (hpsp 3 (by decide))
  rw [hslot]
  simp only [readw, readb, h₂, h₃]
  decide

theorem cs_word_patched : readw (afterEntry cpuEngine (bootMachine.setR16 .eax 0)).mem
    (returnSlot (bootMachine.setR16 .eax 0) + 2) = PM_CS_SEL := by
  have hr : afterEntry cpuEngine (bootMachine.setR16 .eax 0) =
      cpuRetf cpuEngine (dosizDpmiEntry cpuEngine (bootMachine.setR16 .eax 0)) := if_neg (by decide)
  rw [hr]
  exact (ring0_result cpuEngine_loads (realClient_boot 0) (by decide)).2.2.2.2.2.2.2.1

/-- At ring 0 the CS word of the return address becomes the code selector. -/
theorem dpmiEntry_patches_stack : ¬ EntersClean (bootMachine.setR16 .eax 0)
    (afterEntry cpuEngine (bootMachine.setR16 .eax 0)) :=
  fun h => h.cs_word cs_word_patched

end Dosiz
