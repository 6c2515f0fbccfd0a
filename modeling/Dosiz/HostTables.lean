/-
  Dosiz/HostTables.lean
  =====================
  **The host's tables after a DPMI entry.**

  What `dosiz_dpmi_entry` leaves in the GDT, the LDT and the IDT: the descriptors the
  client's segments are loaded from, and gates of the two shapes `write_idt_gate` gives
  them.  The entry is cut into its stages, and each stage has one lemma for what it
  writes and one for what it leaves alone.
-/
import Mathlib.Data.List.GetD
import Dosiz.DpmiEntry

namespace Dosiz

open ByteMemory Machine

/-! ### A descriptor in memory -/

/-- The descriptor at `p` has this base, limit, access byte and D bit. -/
def DescAt (mem : Mem) (p base limit access : Nat) (big : Bool) : Prop :=
  ∀ k < 8, readb mem (p + k) = (descriptorBytes base limit access big).getD k 0 % 256

theorem DescAt.frame {mem mem' : Mem} {p base limit access : Nat} {big : Bool} {S : Set Nat}
    (h : DescAt mem p base limit access big) (hoff : AgreesOff S mem mem')
    (hS : ∀ k < 8, p + k ∉ S) : DescAt mem' p base limit access big :=
  fun k hk => (hoff.readb (hS k hk)).trans (h k hk)

theorem DescAt.base {mem : Mem} {p base limit access : Nat} {big : Bool}
    (h : DescAt mem p base limit access big) (hb : base < 4294967296) : descBase mem p = base := by
  have h₂ := h 2 (by decide)
  have h₃ := h 3 (by decide)
  have h₄ := h 4 (by decide)
  have h₇ := h 7 (by decide)
  simp only [descriptorBytes, List.getD_cons_succ, List.getD_cons_zero] at h₂ h₃ h₄ h₇
  simp only [descBase, h₂, h₃, h₄, h₇]
  omega

theorem DescAt.access {mem : Mem} {p base limit access : Nat} {big : Bool}
    (h : DescAt mem p base limit access big) (ha : access < 256) : readb mem (p + 5) = access := by
  have h₅ := h 5 (by decide)
  simp only [descriptorBytes, List.getD_cons_succ, List.getD_cons_zero] at h₅
  rw [h₅]
  exact Nat.mod_eq_of_lt ha

theorem DescAt.big {mem : Mem} {p base limit access : Nat} {big : Bool}
    (h : DescAt mem p base limit access big) : descBig mem p = big := by
  have h₆ := h 6 (by decide)
  simp only [descriptorBytes, List.getD_cons_succ, List.getD_cons_zero] at h₆
  cases big
  · simp only [Bool.false_eq_true, if_false] at h₆
    simp only [descBig, h₆, decide_eq_false_iff_not]
    omega
  · simp only [if_true] at h₆
    simp only [descBig, h₆, decide_eq_true_eq]
    omega

theorem DescAt.limit {mem : Mem} {p base limit access : Nat} {big : Bool}
    (h : DescAt mem p base limit access big) (hl : limit < 65536) : getLimit mem p = limit := by
  have h₀ := h 0 (by decide)
  have h₁ := h 1 (by decide)
  have h₆ := h 6 (by decide)
  simp only [descriptorBytes, List.getD_cons_succ, List.getD_cons_zero, Nat.add_zero] at h₀ h₁ h₆
  cases big
  · simp only [Bool.false_eq_true, if_false] at h₆
    simp only [getLimit, descLimit, h₀, h₁, h₆]
    rw [if_neg (by omega)]
    omega
  · simp only [if_true] at h₆
    simp only [getLimit, descLimit, h₀, h₁, h₆]
    rw [if_neg (by omega)]
    omega

/-! ### The GDT -/

theorem writeGdt_eq (mem : Mem) (bits32 : Bool) (cs ds ss es : Nat) :
    writeGdt mem bits32 cs ds ss es = storeSlots mem GDT_BASE ((gdtEntries bits32 cs ds ss es).map
      fun d => (d.1, descriptorBytes d.2.1 d.2.2.1 d.2.2.2.1 d.2.2.2.2)) := by
  unfold writeGdt storeSlots
  rw [List.foldl_map]
  rfl

theorem writeGdt_off (mem : Mem) (bits32 : Bool) (cs ds ss es : Nat) :
    AgreesOff (Set.Ico GDT_BASE (GDT_BASE + 128)) mem (writeGdt mem bits32 cs ds ss es) := by
  rw [writeGdt_eq]
  refine storeSlots_off (n := 16) ?_ ?_
  · intro e he
    obtain ⟨d, -, rfl⟩ := List.mem_map.mp he
    rfl
  · simp [gdtEntries]

/-- Every entry of the GDT is in place. -/
theorem gdt_descAt (mem : Mem) {bits32 : Bool} {cs ds ss es i base limit access : Nat} {big : Bool}
    (h : (i, base, limit, access, big) ∈ gdtEntries bits32 cs ds ss es) :
    DescAt (writeGdt mem bits32 cs ds ss es) (GDT_BASE + i * 8) base limit access big := by
  intro k hk
  rw [writeGdt_eq, List.getD_eq_getElem _ 0 (by exact hk)]
  refine readb_storeSlots (descriptorBytes base limit access big) ?_ ?_ ?_ hk
  · intro e he
    obtain ⟨d, -, rfl⟩ := List.mem_map.mp he
    rfl
  · simp [gdtEntries]
  · exact List.mem_map.mpr ⟨_, h, rfl⟩

/-! ### The IDT -/

/-- The gates, and the slots of the shim segment. -/
def gateBytes : Set Nat :=
  Set.Ico IDT_BASE (IDT_BASE + 2048) ∪ Set.Ico PM_SHIM_BASE (PM_SHIM_BASE + PM_SHIM_TOTAL)

/-- A gate as `write_idt_gate` writes them: byte 4 is 0, byte 5 says 16 or 32 bits. -/
def HostGate (mem : Mem) (v : Nat) : Prop :=
  readb mem (IDT_BASE + v * 8 + 4) = 0 ∧
    (readb mem (IDT_BASE + v * 8 + 5) = 0xE6 ∨ readb mem (IDT_BASE + v * 8 + 5) = 0xEE)

/-- The bytes of a written gate. -/
theorem readb_writeIdtGate (mem : Mem) (v sel off : Nat) (bits32 : Bool) {k : Nat} (hk : k < 8) :
    readb (writeIdtGate mem v sel off bits32) (IDT_BASE + v * 8 + k) =
      [off % 256, off / 256 % 256, sel % 256, sel / 256 % 256, 0, if bits32 then 0xEE else 0xE6,
        off / 65536 % 256, off / 16777216 % 256].getD k 0 % 256 := by
  rw [List.getD_eq_getElem _ 0 (by simpa using hk)]
  exact readb_storeBytes mem _ [_, _, _, _, _, _, _, _] hk

theorem HostGate.write (mem : Mem) (v sel off : Nat) (bits32 : Bool) :
    HostGate (writeIdtGate mem v sel off bits32) v := by
  have h₄ := readb_writeIdtGate mem v sel off bits32 (show 4 < 8 by decide)
  have h₅ := readb_writeIdtGate mem v sel off bits32 (show 5 < 8 by decide)
  simp only [List.getD_cons_succ, List.getD_cons_zero] at h₄ h₅
  refine ⟨by rw [h₄], ?_⟩
  rw [h₅]
  cases bits32 <;> simp

theorem HostGate.frame {mem mem' : Mem} {v : Nat} {S : Set Nat} (h : HostGate mem v)
    (hoff : AgreesOff S mem mem') (h₄ : IDT_BASE + v * 8 + 4 ∉ S) (h₅ : IDT_BASE + v * 8 + 5 ∉ S) :
    HostGate mem' v := by
  unfold HostGate
  rw [hoff.readb h₄, hoff.readb h₅]
  exact h

/-- Writing any gate keeps the shape of every gate. -/
theorem HostGate.write_any {mem : Mem} {v : Nat} (h : HostGate mem v) (w sel off : Nat)
    (bits32 : Bool) : HostGate (writeIdtGate mem w sel off bits32) v := by
  by_cases hvw : v = w
  · subst hvw
    exact HostGate.write mem v sel off bits32
  · refine h.frame (writeIdtGate_off mem w sel off bits32) (fun hx => ?_) fun hx => ?_
    · have h₁ := hx.1
      have h₂ := hx.2
      omega
    · have h₁ := hx.1
      have h₂ := hx.2
      omega

theorem HostGate.foldl {α : Type} {f : Mem → α → Mem} {v : Nat}
    (hf : ∀ mem a, HostGate mem v → HostGate (f mem a) v) {mem : Mem} (h : HostGate mem v) (as : List α) :
    HostGate (as.foldl f mem) v := by
  induction as generalizing mem with
  | nil => exact h
  | cons a as ih => exact ih (hf mem a h)

/-- Writing the gates of a list of vectors gives each of them the shape. -/
theorem hostGate_foldl (sel off : Nat → Nat) (bits32 : Bool) {vs : List Nat} {v : Nat} (hv : v ∈ vs)
    (mem : Mem) : HostGate (vs.foldl (fun mem i => writeIdtGate mem i (sel i) (off i) bits32) mem) v := by
  induction vs generalizing mem with
  | nil => cases hv
  | cons w vs ih =>
    rcases List.mem_cons.mp hv with rfl | hv
    · exact HostGate.foldl (fun mem i h => h.write_any i _ _ bits32) (HostGate.write mem v _ _ bits32) vs
    · exact ih hv _

theorem shimSlot_length (v cb : Nat) : (Gates.shimSlot v cb).length = 16 := by
  unfold Gates.shimSlot
  split <;> simp [Gates.dropErrorCode, Gates.native, PM_SHIM_SLOT_BYTES]

theorem hostGate_reflectVector {mem : Mem} {v : Nat} (h : HostGate mem v) (hv : v < 256) (bits32 : Bool)
    (w : Nat) : HostGate (reflectVector bits32 mem w) v := by
  unfold reflectVector
  dsimp only
  split_ifs
  · exact h
  · exact h
  · exact h.write_any _ _ _ _
  · split
    · exact h
    · refine HostGate.write_any (h.frame (storeBytes_off mem _ _) (fun hx => ?_) fun hx => ?_) _ _ _ _
      · have h₁ := hx.1
        simp only [PM_SHIM_BASE, IDT_BASE] at h₁
        omega
      · have h₁ := hx.1
        simp only [PM_SHIM_BASE, IDT_BASE] at h₁
        omega

/-- After `writeIdt` every gate has the shape. -/
theorem hostGate_writeIdt (s : Stubs) (bits32 : Bool) (mem : Mem) {v : Nat} (hv : v < 256) :
    HostGate (writeIdt s bits32 mem) v := by
  unfold writeIdt
  refine HostGate.foldl (fun mem g h => ?_) (HostGate.foldl (fun mem w h => ?_)
    (hostGate_foldl (fun _ => 0) (fun _ => 0) bits32 (List.mem_range.mpr hv) mem) _) _
  · split_ifs
    · exact h.write_any _ _ _ _
    · exact h
  · exact hostGate_reflectVector h hv bits32 w

theorem agreesOff_foldl {α : Type} {f : Mem → α → Mem} {S : Set Nat} {as : List α}
    (hf : ∀ mem, ∀ a ∈ as, AgreesOff S mem (f mem a)) (mem : Mem) : AgreesOff S mem (as.foldl f mem) := by
  induction as generalizing mem with
  | nil => exact AgreesOff.refl _ _
  | cons a as ih =>
    exact (hf mem a List.mem_cons_self).trans
      (ih (fun mem b hb => hf mem b (List.mem_cons_of_mem a hb)) _)

theorem writeIdtGate_gateBytes (mem : Mem) {v : Nat} (hv : v < 256) (sel off : Nat) (bits32 : Bool) :
    AgreesOff gateBytes mem (writeIdtGate mem v sel off bits32) :=
  (writeIdtGate_off mem v sel off bits32).mono fun x hx => Or.inl
    ⟨by have := hx.1; omega, by have := hx.2; omega⟩

theorem reflectVector_gateBytes (mem : Mem) (bits32 : Bool) {w : Nat} (hw : w < 256) :
    AgreesOff gateBytes mem (reflectVector bits32 mem w) := by
  unfold reflectVector
  dsimp only
  split_ifs
  · exact AgreesOff.refl _ _
  · exact AgreesOff.refl _ _
  · exact writeIdtGate_gateBytes mem hw _ _ _
  · split
    · exact AgreesOff.refl _ _
    · refine AgreesOff.trans ((storeBytes_off mem _ _).mono fun x hx => Or.inr ?_)
        (writeIdtGate_gateBytes _ hw _ _ _)
      rw [shimSlot_length] at hx
      have h₁ := hx.1
      have h₂ := hx.2
      simp only [PM_SHIM_SLOT_BYTES] at h₁ h₂
      exact ⟨by omega, by simp only [PM_SHIM_TOTAL, PM_SHIM_SLOT_BYTES]; omega⟩

theorem writeIdt_gateBytes (s : Stubs) (bits32 : Bool) (mem : Mem) :
    AgreesOff gateBytes mem (writeIdt s bits32 mem) := by
  unfold writeIdt
  refine ((agreesOff_foldl (fun mem i hi => ?_) mem).trans (agreesOff_foldl (fun mem w hw => ?_) _)).trans
    (agreesOff_foldl (fun mem g hg => ?_) _)
  · exact writeIdtGate_gateBytes mem (List.mem_range.mp hi) _ _ _
  · exact reflectVector_gateBytes mem bits32 (List.mem_range.mp hw)
  · split_ifs
    · refine writeIdtGate_gateBytes mem ?_ _ _ _
      simp only [serviceGates, List.mem_cons, List.not_mem_nil, or_false] at hg
      rcases hg with rfl | rfl | rfl | rfl | rfl <;> simp
    · exact AgreesOff.refl _ _

/-! ### The tables as one region -/

/-- The megabyte boundary up to the end of the exception stack: the host's own memory. -/
def hostBytes : Set Nat := Set.Ico GDT_BASE (PM_EXC_STACK_BASE + PM_CB_STACK_SIZE)

theorem gateBytes_subset : gateBytes ⊆ hostBytes := by
  rintro x (⟨h₁, h₂⟩ | ⟨h₁, h₂⟩)
  · simp only [IDT_BASE] at h₁ h₂
    exact ⟨by simp only [GDT_BASE]; omega, by simp only [PM_EXC_STACK_BASE, PM_CB_STACK_SIZE]; omega⟩
  · simp only [PM_SHIM_BASE, PM_SHIM_TOTAL, PM_SHIM_SLOT_BYTES] at h₁ h₂
    exact ⟨by simp only [GDT_BASE]; omega, by simp only [PM_EXC_STACK_BASE, PM_CB_STACK_SIZE]; omega⟩

/-- What is written from the GDT's end on. -/
def pastGdt : Set Nat := Set.Ico TSS_BASE (TSS_BASE + TSS_SIZE) ∪ gateBytes ∪
  Set.Ico LDT_BASE (LDT_BASE + LDT_BYTES)

theorem writeTss_off (mem : Mem) :
    AgreesOff (Set.Ico TSS_BASE (TSS_BASE + TSS_SIZE)) mem (writeTss mem) := by
  unfold writeTss
  have hw : Set.Ico (TSS_BASE + 8) (TSS_BASE + 8 + 2) ⊆ Set.Ico TSS_BASE (TSS_BASE + TSS_SIZE) :=
    Set.Ico_subset_Ico (by decide) (by decide)
  have hd : Set.Ico (TSS_BASE + 4) (TSS_BASE + 4 + 4) ⊆ Set.Ico TSS_BASE (TSS_BASE + TSS_SIZE) :=
    Set.Ico_subset_Ico (by decide) (by decide)
  exact ((fill_off mem TSS_BASE TSS_SIZE 0).trans ((writed_off _ _ _).mono hd)).trans
    ((writew_off _ _ _).mono hw)

theorem catchAllGates_off (m : Machine) (bits32 : Bool) :
    AgreesOff gateBytes m.mem (catchAllGates m bits32).mem := by
  unfold catchAllGates
  dsimp only
  generalize (if bits32 = true then m.stubs.leExcCb32 else m.stubs.leExcCb16) = excCb
  split
  · exact AgreesOff.refl _ _
  · refine agreesOff_foldl (fun mem v hv => writeIdtGate_gateBytes mem ?_ _ _ _) m.mem
    have := List.mem_range.mp hv
    omega

/-- The tables of `dosiz_dpmi_entry`, before the two paths part. -/
def entryTables (m : Machine) (bits32 : Bool) (cs : Nat) : Machine :=
  catchAllGates (resetLdt (pmSetupGdtAndIdt m bits32 cs (m.segVal .ds) (m.segVal .ss) (m.segVal .es)))
    bits32

theorem entryTables_pastGdt (m : Machine) (bits32 : Bool) (cs : Nat) :
    AgreesOff pastGdt (writeGdt m.mem bits32 cs (m.segVal .ds) (m.segVal .ss) (m.segVal .es))
      (entryTables m bits32 cs).mem := by
  have htss : Set.Ico TSS_BASE (TSS_BASE + TSS_SIZE) ⊆ pastGdt := fun x hx => Or.inl (Or.inl hx)
  have hgate : gateBytes ⊆ pastGdt := fun x hx => Or.inl (Or.inr hx)
  have hldt : Set.Ico LDT_BASE (LDT_BASE + LDT_BYTES) ⊆ pastGdt := fun x hx => Or.inr hx
  exact ((((writeTss_off _).mono htss).trans ((writeIdt_gateBytes _ _ _).mono hgate)).trans
    ((fill_off _ LDT_BASE LDT_BYTES 0).mono hldt)).trans ((catchAllGates_off _ _).mono hgate)

theorem not_pastGdt {x : Nat} (h : x < GDT_BASE + 128) : x ∉ pastGdt := by
  rintro ((⟨h₁, -⟩ | ⟨h₁, -⟩ | ⟨h₁, -⟩) | ⟨h₁, -⟩)
  all_goals
    simp only [GDT_BASE, TSS_BASE, IDT_BASE, PM_SHIM_BASE, LDT_BASE] at h h₁
    omega

/-- The GDT's descriptors once all tables are written. -/
theorem entryTables_gdt {m : Machine} {bits32 : Bool} {cs i base limit access : Nat} {big : Bool}
    (h : (i, base, limit, access, big) ∈
      gdtEntries bits32 cs (m.segVal .ds) (m.segVal .ss) (m.segVal .es)) :
    DescAt (entryTables m bits32 cs).mem (GDT_BASE + i * 8) base limit access big := by
  refine (gdt_descAt m.mem h).frame (entryTables_pastGdt m bits32 cs) fun k hk => not_pastGdt ?_
  have hi : i < 16 := by
    simp only [gdtEntries, List.mem_cons, Prod.mk.injEq, List.not_mem_nil, or_false] at h
    omega
  omega

theorem catchAllGates_cpu (m : Machine) (bits32 : Bool) : (catchAllGates m bits32).cpu = m.cpu := by
  unfold catchAllGates
  dsimp only
  generalize (if bits32 = true then m.stubs.leExcCb32 else m.stubs.leExcCb16) = excCb
  split <;> rfl

theorem entryTables_cpu (m : Machine) (bits32 : Bool) (cs : Nat) : (entryTables m bits32 cs).cpu =
    { m.cpu with
      gdtLimit := GDT_LIMIT
      gdtBase := GDT_BASE
      idtLimit := IDT_LIMIT
      idtBase := IDT_BASE } := catchAllGates_cpu _ _

/-- The entry writes the host's own memory only, up to here. -/
theorem entryTables_off (m : Machine) (bits32 : Bool) (cs : Nat) :
    AgreesOff hostBytes m.mem (entryTables m bits32 cs).mem := by
  refine ((writeGdt_off m.mem bits32 cs _ _ _).mono fun x hx => ?_).trans
    ((entryTables_pastGdt m bits32 cs).mono ?_)
  · exact ⟨hx.1, by have := hx.2; simp only [GDT_BASE, PM_EXC_STACK_BASE, PM_CB_STACK_SIZE] at *; omega⟩
  · rintro x ((⟨h₁, h₂⟩ | hx) | ⟨h₁, h₂⟩)
    · simp only [TSS_BASE, TSS_SIZE] at h₁ h₂
      exact ⟨by simp only [GDT_BASE]; omega, by simp only [PM_EXC_STACK_BASE, PM_CB_STACK_SIZE]; omega⟩
    · exact gateBytes_subset hx
    · simp only [LDT_BASE, LDT_BYTES] at h₁ h₂
      exact ⟨by simp only [GDT_BASE]; omega, by simp only [PM_EXC_STACK_BASE, PM_CB_STACK_SIZE]; omega⟩

/-- Every gate has the shape once all tables are written. -/
theorem entryTables_gates (m : Machine) (bits32 : Bool) (cs : Nat) {v : Nat} (hv : v < 256) :
    HostGate (entryTables m bits32 cs).mem v := by
  have hidt := hostGate_writeIdt m.stubs bits32
    (writeTss (writeGdt m.mem bits32 cs (m.segVal .ds) (m.segVal .ss) (m.segVal .es))) hv
  have hfill : HostGate (resetLdt (pmSetupGdtAndIdt m bits32 cs (m.segVal .ds) (m.segVal .ss)
      (m.segVal .es))).mem v := by
    refine hidt.frame (fill_off _ LDT_BASE LDT_BYTES 0) (fun hx => ?_) fun hx => ?_
    · have h₁ := hx.1
      simp only [LDT_BASE, IDT_BASE] at h₁
      omega
    · have h₁ := hx.1
      simp only [LDT_BASE, IDT_BASE] at h₁
      omega
  unfold entryTables catchAllGates
  dsimp only
  generalize (if bits32 = true then _ else _) = excCb
  split
  · exact hfill
  · exact HostGate.foldl (fun mem w h => h.write_any w _ _ _) hfill _

/-- LLDT with the selector of the host's LDT. -/
theorem cpuLldt_entry {m : Machine} (hg : m.cpu.gdtBase = GDT_BASE)
    (hd : DescAt m.mem (GDT_BASE + 6 * 8) LDT_BASE (LDT_BYTES - 1) 0x82 false) :
    (cpuLldt m PM_LDT_SEL).cpu = { m.cpu with ldtBase := LDT_BASE, ldtLimit := LDT_BYTES - 1 } := by
  have hp : lin (m.cpu.gdtBase + PM_LDT_SEL / 8 * 8) = GDT_BASE + 6 * 8 := by
    rw [hg]
    rfl
  have hcpu : ∀ base limit, base = LDT_BASE → limit = LDT_BYTES - 1 →
      { m.cpu with ldtBase := base, ldtLimit := limit } =
        { m.cpu with ldtBase := LDT_BASE, ldtLimit := LDT_BYTES - 1 } := by
    rintro _ _ rfl rfl
    rfl
  refine hcpu _ _ ?_ ?_
  · rw [hp]
    exact hd.base (by decide)
  · rw [hp]
    exact hd.limit (by decide)

/-! ### Segment loads -/

/-- The host's GDT and LDT are loaded. -/
structure TablesLoaded (c : Cpu) : Prop where
  gdtBase : c.gdtBase = GDT_BASE
  gdtLimit : c.gdtLimit = GDT_LIMIT
  ldtBase : c.ldtBase = LDT_BASE
  ldtLimit : c.ldtLimit = LDT_BYTES - 1

/-- With the host's tables a selector names the slot of its index. -/
theorem TablesLoaded.getDescriptor {m : Machine} (h : TablesLoaded m.cpu) {sel : Nat}
    (hsel : if sel / 4 % 2 = 1 then sel / 8 < 256 else sel / 8 < 16) :
    getDescriptor m sel = some (selectorTableBase sel + sel / 8 * 8) := by
  unfold Dosiz.getDescriptor selectorTableBase
  dsimp only
  split_ifs at hsel ⊢ with ht hl hl
  · rw [h.ldtLimit] at hl
    simp only [LDT_BYTES] at hl
    omega
  · rw [h.ldtBase, lin_of_lt (by simp only [LDT_BASE]; omega)]
  · rw [h.gdtLimit] at hl
    simp only [GDT_LIMIT] at hl
    omega
  · rw [h.gdtBase, lin_of_lt (by simp only [GDT_BASE]; omega)]

/-- Loading a selector whose descriptor is in place. -/
theorem load_desc {eng : Engine} (heng : eng.Loads) {m : Machine} (h : TablesLoaded m.cpu)
    (hp : m.cpu.pmode = true) (s : SegName) (sel : Nat) {base limit access : Nat} {big : Bool}
    (hsel : if sel / 4 % 2 = 1 then sel / 8 < 256 else sel / 8 < 16) (hnull : sel / 4 ≠ 0)
    (hd : DescAt m.mem (selectorTableBase sel + sel / 8 * 8) base limit access big)
    (hb : base < 4294967296) (ha : access < 256)
    (hallow : accessAllowed s m.cpu.cpl sel access = true) :
    cpuSetSegGeneral eng m s sel =
      mirrorSeg m s (⟨BitVec.ofNat 16 sel, BitVec.ofNat 32 base⟩, big) := by
  have hload := heng m s sel _ hp hnull (h.getDescriptor hsel) (by rw [hd.access ha]; exact hallow)
  rw [cpuSetSegGeneral, hload, hd.base hb, hd.big]

end Dosiz
