/-
  Dosiz/ScratchStack.lean
  =======================
  **The real-mode stack for a structure with SS = 0** (AX=0300, 0301 and 0302).

  The client may leave SS:SP zero; the host then takes a stack of its own, at an address
  that is written into the code three times: 9000:FFF0 for AX=0300 and 0050:0F00 for the
  other two.  `scratch_clear_iff` says for which programs and which states of the arena
  the host's own frames on it overwrite nothing that belongs to anybody.
-/
import Mathlib.Order.CompletePartialOrder
import Mathlib.Order.Interval.Set.Disjoint
import Dosiz.CallbackReturn
import Dosiz.ChildBlocks

namespace Dosiz

/-- How many bytes the host pushes: FLAGS, CS and IP, or a far return address. -/
def RmService.depth : RmService → Nat
  | .simulateInt | .callIret => 6
  | .callFar => 4

/-- The first byte above the scratch stack. -/
def RmService.top (svc : RmService) : Nat := svc.scratch.1 * 16 + svc.scratch.2

/-- The paragraph that the host's frame is in. -/
def RmService.paragraph (svc : RmService) : Nat := (svc.top - 1) / 16

end Dosiz

namespace Dosiz.ScratchStack

open ByteMemory BlockChain Machine Mcb ChildBlocks Nesting

/-! ### The stack and what it must spare -/

/-- The bytes of the host's own frame, below SS:SP as the service has loaded them. -/
def hostFrame (eng : Engine) (svc : RmService) (m : Machine) : Set Nat :=
  let q := loadRmContext eng svc (lin (m.segPhys .es + m.r32 .edi)) m
  Set.Ico (q.segPhys .ss + q.sp - svc.depth) (q.segPhys .ss + q.sp)

/-- A program in conventional memory: its PSP, its image and its environment block. -/
structure Layout where
  psp : Nat
  image : Nat
  imageLen : Nat
  env : Nat
  envLen : Nat

def Layout.bytes (L : Layout) : Set Nat :=
  Set.Ico (L.psp * 16) (L.psp * 16 + 256) ∪ Set.Ico L.image (L.image + L.imageLen) ∪
    Set.Ico (L.env * 16) (L.env * 16 + L.envLen)

/-- The size that the top-level program's own header records. -/
def ownSize (m : Machine) : Nat := readw m.mem ((PSP_SEG - 1) * 16 + 3)

/-- The bytes of the allocated blocks: those of the arena, and the one of the top-level program. -/
def allocatedBytes (m : Machine) : Set Nat :=
  { a | m.mcbInitialised = true ∧
    ((∃ bs q b, Chain m.mem bs ∧ Allocated bs q b ∧ a ∈ dataBytes (q + 1) b) ∨
      a ∈ Set.Ico (PSP_SEG * 16) ((PSP_SEG + ownSize m) * 16)) }

/-- The host's frame overlaps nothing of the program's and no allocated block. -/
def ScratchClear (eng : Engine) (svc : RmService) (m : Machine) (L : Layout) : Prop :=
  Disjoint (hostFrame eng svc m) (L.bytes ∪ allocatedBytes m)

/-! ### The condition -/

/-- The extent of `len` bytes at `a` keeps clear of the frame. -/
def Clear (svc : RmService) (a len : Nat) : Prop :=
  len = 0 ∨ a + len ≤ svc.top - svc.depth ∨ svc.top ≤ a

/-- The program keeps clear of the frame, the top-level program's block ends below it, and for AX=0300 no
    block of the arena covers its paragraph. -/
structure ScratchFree (svc : RmService) (m : Machine) (L : Layout) : Prop where
  psp : Clear svc (L.psp * 16) 256
  image : Clear svc L.image L.imageLen
  env : Clear svc (L.env * 16) L.envLen
  program : m.mcbInitialised = true → PSP_SEG + ownSize m ≤ svc.paragraph
  arena : m.mcbInitialised = true → svc = .simulateInt → ∀ bs q b, Chain m.mem bs → Allocated bs q b →
    q + 1 + b.size ≤ 0x9FFE ∨ 0x9FFF ≤ q + 1

/-! ### The frame -/

variable {eng : Engine} {svc : RmService} {m : Machine}

/-- The structure has SS = 0. -/
def NoStack (m : Machine) : Prop := rmcsWord m.mem (lin (m.segPhys .es + m.r32 .edi)) 0x30 = 0

theorem loadRmContext_mem (eng : Engine) (svc : RmService) (rmcs : Nat) (m : Machine) :
    (loadRmContext eng svc rmcs m).mem = m.mem := by
  have hregs : ∀ (l : List (Nat × Reg)) (q : Machine),
      (l.foldl (fun m p => m.setR32 p.2 (rmcsDword m.mem rmcs p.1)) q).mem = q.mem := by
    intro l
    induction l with
    | nil => exact fun q => rfl
    | cons p l ih => exact fun q => (ih _).trans rfl
  unfold loadRmContext
  dsimp only
  split_ifs
  · exact hregs rmcsRegs _
  · exact hregs rmcsRegs _

/-- SS:SP of the scratch stack. -/
theorem scratch_loaded (heng : eng.LoadsReal) (svc : RmService) {rmcs : Nat} (hss : rmcsWord m.mem rmcs 0x30 = 0) :
    (loadRmContext eng svc rmcs m).segVal .ss = svc.scratch.1 ∧
      (loadRmContext eng svc rmcs m).segPhys .ss = svc.scratch.1 * 16 ∧
      (loadRmContext eng svc rmcs m).r32 .esp = svc.scratch.2 := by
  have hstack : ∀ q : Machine,
      ((segSet16 eng q .ss svc.scratch.1).setR32 .esp svc.scratch.2).segVal .ss = svc.scratch.1 ∧
        ((segSet16 eng q .ss svc.scratch.1).setR32 .esp svc.scratch.2).segPhys .ss = svc.scratch.1 * 16 := by
    intro q
    rw [segSet16_real heng]
    have hseg : ((mirrorSeg q .ss (realSeg svc.scratch.1, false)).setR32 .esp svc.scratch.2).cpu.segs .ss =
        realSeg svc.scratch.1 := by
      simp only [setR32, mirrorSeg, Function.update_self]
    rw [segVal, segPhys, hseg]
    cases svc with
    | simulateInt => exact ⟨rfl, rfl⟩
    | callFar => exact ⟨rfl, rfl⟩
    | callIret => exact ⟨rfl, rfl⟩
  unfold loadRmContext
  dsimp only
  rw [if_neg (not_not.mpr hss)]
  refine ⟨(hstack _).1, (hstack _).2, ?_⟩
  rw [r32_setR32]
  cases svc with
  | simulateInt => rfl
  | callFar => rfl
  | callIret => rfl

theorem hostFrame_eq (heng : eng.LoadsReal) (hss : NoStack m) :
    hostFrame eng svc m = Set.Ico (svc.top - svc.depth) (svc.top) := by
  obtain ⟨-, hphys, hesp⟩ := scratch_loaded heng svc hss
  have hsp : (loadRmContext eng svc (lin (m.segPhys .es + m.r32 .edi)) m).sp = svc.scratch.2 := by
    rw [sp, r16, hesp]
    cases svc with
    | simulateInt => rfl
    | callFar => rfl
    | callIret => rfl
  unfold hostFrame
  dsimp only
  rw [hphys, hsp]
  rfl

/-- A word pushed inside a range changes nothing outside it. -/
theorem push_off {p : Machine} {seg off k v lo hi : Nat} (hs : p.segVal .ss = seg) (ho : p.sp = off)
    (hlo : lo ≤ physMake seg (off + k)) (hhi : physMake seg (off + k) + 2 ≤ hi) :
    AgreesOff (Set.Ico lo hi) p.mem (realWritew p (p.segVal .ss) (p.sp + k) v).mem := by
  rw [hs, ho]
  exact (writew_off _ _ _).mono fun _ ha => ⟨hlo.trans ha.1, ha.2.trans_le hhi⟩

/-- What the service writes before the procedure runs is its frame. -/
theorem enterRm_frame (heng : eng.LoadsReal) (hss : NoStack m) :
    AgreesOff (hostFrame eng svc m) m.mem (enterRm eng svc m).mem := by
  obtain ⟨hseg, -, hesp⟩ := scratch_loaded heng svc hss
  have hmem := loadRmContext_mem eng svc (lin (m.segPhys .es + m.r32 .edi)) m
  rw [hostFrame_eq heng hss, ← hmem]
  unfold enterRm
  dsimp only
  generalize loadRmContext eng svc (lin (m.segPhys .es + m.r32 .edi)) m = q at hseg hesp hmem
  have hjump : ∀ (p : Machine) e v, (segSet16 eng (p.setEip e) .cs v).mem = p.mem := fun _ _ _ => rfl
  cases svc with
  | simulateInt => exact AgreesOff.refl _ _
  | callFar =>
    have hsp : (q.setR16 .esp (q.sp + 65532)).sp = 0xEFC := by
      rw [sp, r16_setR16, sp, r16, hesp]
      rfl
    have hval : (q.setR16 .esp (q.sp + 65532)).segVal .ss = 0x50 := hseg
    have hpush : ∀ p : Machine, p.segVal .ss = 0x50 → p.sp = 0xEFC → ∀ v w,
        AgreesOff (Set.Ico 0x13FC 0x1400) p.mem
          (realWritew (realWritew p (p.segVal .ss) p.sp v) (p.segVal .ss) (p.sp + 2) w).mem :=
      fun p hp ho v w => (push_off (k := 0) hp ho (by decide) (by decide)).trans
        (push_off (p := realWritew p (p.segVal .ss) p.sp v) hp ho (by decide) (by decide))
    dsimp only
    rw [hjump]
    exact hpush _ hval hsp _ _
  | callIret =>
    have hsp : (q.setR32 .esp (lin (q.r32 .esp + 4294967290) % 65536)).sp = 0xEFA := by
      rw [sp, r16, r32_setR32, hesp]
      rfl
    have hval : (q.setR32 .esp (lin (q.r32 .esp + 4294967290) % 65536)).segVal .ss = 0x50 := hseg
    have hpush : ∀ p : Machine, p.segVal .ss = 0x50 → p.sp = 0xEFA → ∀ u v w,
        AgreesOff (Set.Ico 0x13FA 0x1400) p.mem (realWritew (realWritew (realWritew p (p.segVal .ss) p.sp u)
          (p.segVal .ss) (p.sp + 2) v) (p.segVal .ss) (p.sp + 4) w).mem :=
      fun p hp ho u v w => ((push_off (k := 0) hp ho (by decide) (by decide)).trans
        (push_off (p := realWritew p (p.segVal .ss) p.sp u) hp ho (by decide) (by decide))).trans
        (push_off (p := realWritew (realWritew p (p.segVal .ss) p.sp u) (p.segVal .ss) (p.sp + 2) v) hp ho
          (by decide) (by decide))
    dsimp only
    rw [hjump]
    exact hpush _ hval hsp _ _ _

/-! ### What the frame meets -/

theorem disjoint_extent_iff {a len : Nat} :
    Disjoint (Set.Ico (svc.top - svc.depth) svc.top) (Set.Ico a (a + len)) ↔ Clear svc a len := by
  rw [Set.Ico_disjoint_Ico, Clear]
  cases svc with
  | simulateInt =>
    simp only [RmService.top, RmService.depth, RmService.scratch]
    omega
  | callFar =>
    simp only [RmService.top, RmService.depth, RmService.scratch]
    omega
  | callIret =>
    simp only [RmService.top, RmService.depth, RmService.scratch]
    omega

/-- The frame is in one paragraph, and the first byte of the frame is in it. -/
theorem frame_bounds (svc : RmService) : svc.paragraph * 16 ≤ svc.top - svc.depth ∧ svc.top - svc.depth < svc.top ∧
    svc.top ≤ (svc.paragraph + 1) * 16 := by
  cases svc with
  | simulateInt => decide
  | callFar => decide
  | callIret => decide

theorem disjoint_program_iff {n : Nat} :
    Disjoint (Set.Ico (svc.top - svc.depth) svc.top) (Set.Ico (PSP_SEG * 16) ((PSP_SEG + n) * 16)) ↔
      PSP_SEG + n ≤ svc.paragraph := by
  obtain ⟨h₁, h₂, h₃⟩ := frame_bounds svc
  have hlow : PSP_SEG * 16 ≤ svc.paragraph * 16 := by
    cases svc with
    | simulateInt => decide
    | callFar => decide
    | callIret => decide
  rw [Set.Ico_disjoint_Ico]
  omega

/-- A block of the arena meets the frame of AX=0300 only. -/
theorem disjoint_block_iff {bs : List (Block Nat)} {q : Nat} {b : Block Nat} (ha : Allocated bs q b) :
    Disjoint (Set.Ico (svc.top - svc.depth) svc.top) (dataBytes (q + 1) b) ↔
      (svc = .simulateInt → q + 1 + b.size ≤ 0x9FFE ∨ 0x9FFF ≤ q + 1) := by
  have hq := (place_bounds ha.1).1
  simp only [MCB_ARENA_START] at hq
  rw [dataBytes, Set.Ico_disjoint_Ico]
  cases svc with
  | simulateInt =>
    simp only [RmService.top, RmService.depth, RmService.scratch, forall_const]
    omega
  | callFar =>
    simp only [RmService.top, RmService.depth, RmService.scratch, reduceCtorEq, false_implies, iff_true]
    omega
  | callIret =>
    simp only [RmService.top, RmService.depth, RmService.scratch, reduceCtorEq, false_implies, iff_true]
    omega

/-- **The scratch stack.**  For a structure with SS = 0 the host's own frame overlaps neither the program nor a
    block exactly if the program keeps clear of it, the top-level program's block has been cut down to end
    below it, and, for AX=0300, the block at the top of the arena is free or starts behind it. -/
theorem scratch_clear_iff (heng : eng.LoadsReal) (hss : NoStack m) (L : Layout) :
    ScratchClear eng svc m L ↔ ScratchFree svc m L := by
  have hblocks : Disjoint (Set.Ico (svc.top - svc.depth) svc.top) (allocatedBytes m) ↔
      (m.mcbInitialised = true → PSP_SEG + ownSize m ≤ svc.paragraph) ∧
        (m.mcbInitialised = true → svc = .simulateInt → ∀ bs q b, Chain m.mem bs → Allocated bs q b →
          q + 1 + b.size ≤ 0x9FFE ∨ 0x9FFF ≤ q + 1) := by
    constructor
    · intro h
      rw [Set.disjoint_left] at h
      refine ⟨fun hi => disjoint_program_iff.mp ?_, fun hi hsvc bs q b hc ha => ?_⟩
      · exact Set.disjoint_left.mpr fun a ha hown => h ha ⟨hi, .inr hown⟩
      · exact (disjoint_block_iff ha).mp
          (Set.disjoint_left.mpr fun a hf hdata => h hf ⟨hi, .inl ⟨bs, q, b, hc, ha, hdata⟩⟩) hsvc
    · rintro ⟨hprogram, harena⟩
      rw [Set.disjoint_left]
      rintro a hf ⟨hi, ⟨bs, q, b, hc, ha, hdata⟩ | hown⟩
      · exact Set.disjoint_left.mp ((disjoint_block_iff ha).mpr fun hsvc => harena hi hsvc bs q b hc ha) hf hdata
      · exact Set.disjoint_left.mp (disjoint_program_iff.mpr (hprogram hi)) hf hown
  rw [ScratchClear, hostFrame_eq heng hss, Layout.bytes, Set.disjoint_union_right, Set.disjoint_union_right,
    Set.disjoint_union_right, disjoint_extent_iff, disjoint_extent_iff, disjoint_extent_iff, hblocks]
  exact ⟨fun ⟨⟨⟨hp, hi⟩, he⟩, hown, harena⟩ => ⟨hp, hi, he, hown, harena⟩,
    fun h => ⟨⟨⟨h.psp, h.image⟩, h.env⟩, h.program, h.arena⟩⟩

/-! ### The stub at top level -/

/-- The PSP at 0100, an image of 800h bytes behind it and the environment at 0050. -/
def stubLayout : Layout := ⟨PSP_SEG, 0x1100, 0x800, 0x50, 0x800⟩

theorem noStack_boot : NoStack bootMachine := by
  unfold NoStack
  decide +kernel

/-- Before any block is allocated, the stack of AX=0300 is clear of the stub. -/
theorem scratch_clear_iff_stub : ScratchClear tableEngine .simulateInt bootMachine stubLayout := by
  refine (scratch_clear_iff tableEngine_loadsReal noStack_boot stubLayout).mpr
    ⟨.inr (.inl ?_), .inr (.inl ?_), .inr (.inl ?_), fun h => absurd h Bool.noConfusion,
      fun h => absurd h Bool.noConfusion⟩
  · decide
  · decide
  · decide

/-- The stack of AX=0301 lies in the stub's image. -/
theorem scratch_in_image : NoStack bootMachine ∧ ¬ ScratchClear tableEngine .callFar bootMachine stubLayout := by
  refine ⟨noStack_boot, fun h => ?_⟩
  rw [ScratchClear, hostFrame_eq tableEngine_loadsReal noStack_boot, Set.disjoint_left] at h
  refine h (a := 0x13FC) ⟨by decide, by decide⟩ (.inl (.inl (.inr ⟨by decide, by decide⟩)))

end Dosiz.ScratchStack
