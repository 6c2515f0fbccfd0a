/-
  Dosiz/HighWords.lean
  ====================
  **The high words of a 16-bit caller's registers** (`dosiz_int31` of `bridge.cc`).

  A client that runs 16-bit code does not know what is in the high words of its registers.  Two callers that agree
  in everything but those words are compared, function by function: most services answer both alike, and the ones
  that take a whole register for an offset do not.  `int31_words_iff` says which are which.
-/
import Dosiz.ServiceFrame

namespace Dosiz.HighWords

open ByteMemory Machine Mcb PmArena

/-! ### Two callers -/

/-- The machines differ in the high words of the general registers at most; ESP is the same. -/
structure SameWords (m m' : Machine) : Prop where
  eq : m' = m.setRegs m'.cpu.regs
  words : ∀ r, m'.r16 r = m.r16 r
  esp : m'.r32 .esp = m.r32 .esp

/-- Neither call returns, or both do, in machines alike and with the same carry. -/
def AnswerAlike : Reply → Reply → Prop := Option.Rel fun r r' => SameWords r.1 r'.1 ∧ r.2 = r'.2

/-- The function answers callers alike that differ in high words only. -/
def Alike (f : Machine → Reply) : Prop := ∀ m m', SameWords m m' → AnswerAlike (f m) (f m')

/-- Loading a segment register does not look at the general registers. -/
def LoadsBlind (eng : Engine) : Prop :=
  ∀ mem cpu regs s v, eng.loadSegment mem { cpu with regs := regs } s v = eng.loadSegment mem cpu s v

/-- The functions that take all of EDX, ESI or EDI for an offset. -/
def wideCalls : List Nat := [0x000B, 0x000C, 0x0203, 0x0205, 0x0303, 0x0401, 0x0500, 0x0506]

section Words

variable {m m' : Machine}

theorem SameWords.refl (m : Machine) : SameWords m m := ⟨rfl, fun _ => rfl, rfl⟩

theorem SameWords.mem (h : SameWords m m') : m'.mem = m.mem := by
  rw [h.eq]
  rfl

theorem SameWords.flagsAddr (h : SameWords m m') : flagsAddr m' = flagsAddr m := by
  have hesp := h.esp
  have hsp := h.words .esp
  rw [Dosiz.flagsAddr, Dosiz.flagsAddr, hesp, hsp, h.eq]
  rfl

/-- Bytes of a register are those of its low word. -/
theorem SameWords.r8l (h : SameWords m m') (r : Reg) : m'.r8l r = m.r8l r := by
  have hw := h.words r
  simp only [r16, Machine.r8l] at hw ⊢
  omega

theorem SameWords.r8h (h : SameWords m m') (r : Reg) : m'.r8h r = m.r8h r := by
  have hw := h.words r
  simp only [r16, Machine.r8h] at hw ⊢
  omega

/-! ### What keeps two machines alike -/

/-- A step on memory and the host's globals, which does not look at the general registers. -/
structure HostStep (F : Machine → Machine) : Prop where
  comm : ∀ m regs, F (m.setRegs regs) = (F m).setRegs regs
  regs : ∀ m, (F m).cpu.regs = m.cpu.regs

theorem SameWords.host {F : Machine → Machine} (h : SameWords m m') (hF : HostStep F) : SameWords (F m) (F m') := by
  have hr : ∀ m r, (F m).r32 r = m.r32 r := by
    intro m r
    rw [r32, hF.regs]
    rfl
  refine ⟨?_, ?_, ?_⟩
  · rw [hF.regs, ← hF.comm, ← h.eq]
  · intro r
    rw [r16, r16, hr, hr]
    exact h.words r
  · rw [hr, hr]
    exact h.esp

theorem SameWords.setMem (h : SameWords m m') (mem : Mem) : SameWords (m.setMem mem) (m'.setMem mem) :=
  h.host (F := fun m => m.setMem mem) ⟨fun _ _ => rfl, fun _ => rfl⟩

theorem SameWords.setCache (h : SameWords m m') (cache : Nat → Nat) :
    SameWords { m with seg2descCache := cache } { m' with seg2descCache := cache } :=
  h.host (F := fun m => { m with seg2descCache := cache }) ⟨fun _ _ => rfl, fun _ => rfl⟩

theorem SameWords.setCallbacks (h : SameWords m m') (cbs : List RmCallback) :
    SameWords { m with rmCallbacks := cbs } { m' with rmCallbacks := cbs } :=
  h.host (F := fun m => { m with rmCallbacks := cbs }) ⟨fun _ _ => rfl, fun _ => rfl⟩

theorem SameWords.setVirtualIf (h : SameWords m m') (b : Bool) :
    SameWords { m with virtualIf := b } { m' with virtualIf := b } :=
  h.host (F := fun m => { m with virtualIf := b }) ⟨fun _ _ => rfl, fun _ => rfl⟩

theorem SameWords.ldtSet (h : SameWords m m') (idx : Nat) (v : Bool) :
    SameWords (ldtSet m idx v) (ldtSet m' idx v) :=
  h.host (F := fun m => Dosiz.ldtSet m idx v) ⟨fun _ _ => rfl, fun _ => rfl⟩

theorem SameWords.installLdt (h : SameWords m m') (idx base limit access : Nat) :
    SameWords (installLdt m idx base limit access) (installLdt m' idx base limit access) :=
  h.host (F := fun m => Dosiz.installLdt m idx base limit access) ⟨fun _ _ => rfl, fun _ => rfl⟩

theorem SameWords.setCf (h : SameWords m m') (val : Bool) : SameWords (setCf m val) (setCf m' val) := by
  have hm := h.setMem (editFlag m.mem (Dosiz.flagsAddr m) 0x0001 val)
  rw [Dosiz.setCf, Dosiz.setCf, h.mem, h.flagsAddr]
  exact hm

/-- A register gets values with the same low word. -/
theorem SameWords.setR32 (h : SameWords m m') (r : Reg) {v v' : Nat} (hv : v' % 65536 = v % 65536)
    (hesp : r = .esp → v' = v) : SameWords (m.setR32 r v) (m'.setR32 r v') := by
  refine ⟨?_, ?_, ?_⟩
  · rw [h.eq]
    rfl
  · intro s
    by_cases hs : s = r
    · subst hs
      rw [r16, r16, r32_setR32, r32_setR32]
      omega
    · rw [r16, r16, r32_setR32_of_ne _ _ hs, r32_setR32_of_ne _ _ hs]
      exact h.words s
  · by_cases hr : r = .esp
    · rw [hesp hr, hr, r32_setR32, r32_setR32]
    · rw [r32_setR32_of_ne _ _ (Ne.symm hr), r32_setR32_of_ne _ _ (Ne.symm hr)]
      exact h.esp

theorem SameWords.setEdx (h : SameWords m m') (v : Nat) : SameWords (m.setR32 .edx v) (m'.setR32 .edx v) :=
  h.setR32 .edx rfl fun _ => rfl

theorem SameWords.setR16 (h : SameWords m m') (r : Reg) (v : Nat) : SameWords (m.setR16 r v) (m'.setR16 r v) := by
  refine h.setR32 r ?_ ?_
  · omega
  · rintro rfl
    rw [h.esp]

theorem SameWords.setR16s (h : SameWords m m') (rs : List (Reg × Nat)) :
    SameWords (m.setR16s rs) (m'.setR16s rs) := by
  induction rs generalizing m m' with
  | nil => exact h
  | cons p rs ih => exact ih (h.setR16 p.1 p.2)

theorem SameWords.setR8l (h : SameWords m m') (r : Reg) (v : Nat) : SameWords (m.setR8l r v) (m'.setR8l r v) := by
  have hw := h.words r
  refine h.setR32 r ?_ ?_
  · simp only [r16] at hw
    omega
  · rintro rfl
    rw [h.esp]

theorem SameWords.setR8h (h : SameWords m m') (r : Reg) (v : Nat) : SameWords (m.setR8h r v) (m'.setR8h r v) := by
  have hw := h.words r
  refine h.setR32 r ?_ ?_
  · simp only [r16] at hw
    omega
  · rintro rfl
    rw [h.esp]

end Words

/-! ### The allocators and the segment loads -/

section Host

variable (m : Machine) (g : Reg → BitVec 32)

theorem mcbReady_setRegs : mcbReady (m.setRegs g) = (mcbReady m).setRegs g := by
  by_cases hb : m.mcbInitialised = true
  · have hb' : (m.setRegs g).mcbInitialised = true := hb
    rw [mcbReady, mcbReady, if_pos hb, if_pos hb']
  · have hb' : ¬ (m.setRegs g).mcbInitialised = true := hb
    rw [mcbReady, mcbReady, if_neg hb, if_neg hb']
    rfl

theorem mcbAllocate_setRegs (need : Nat) :
    mcbAllocate (m.setRegs g) need = (mcbAllocate m need).map fun r => (r.1.setRegs g, r.2) := by
  unfold mcbAllocate
  rw [mcbReady_setRegs]
  dsimp only [setRegs]
  cases mcbAllocateIn (mcbReady m).mem need <;> rfl

theorem mcbFree_setRegs (seg : Nat) :
    mcbFree (m.setRegs g) seg = ((mcbFree m seg).1.setRegs g, (mcbFree m seg).2) := by
  by_cases hb : m.mcbInitialised = true
  · have hb' : (m.setRegs g).mcbInitialised = true := hb
    rw [mcbFree, mcbFree, if_pos hb, if_pos hb']
    rfl
  · have hb' : ¬ (m.setRegs g).mcbInitialised = true := hb
    rw [mcbFree, mcbFree, if_neg hb, if_neg hb']

theorem mcbResize_setRegs (seg size : Nat) :
    mcbResize (m.setRegs g) seg size = ((mcbResize m seg size).1.setRegs g, (mcbResize m seg size).2) := by
  by_cases hb : m.mcbInitialised = true
  · have hb' : (m.setRegs g).mcbInitialised = true := hb
    rw [mcbResize, mcbResize, if_pos hb, if_pos hb']
    rfl
  · have hb' : ¬ (m.setRegs g).mcbInitialised = true := hb
    rw [mcbResize, mcbResize, if_neg hb, if_neg hb']

theorem pmInit_setRegs : pmInit (m.setRegs g) = (pmInit m).setRegs g := by
  by_cases hb : m.pmInitialised = true
  · have hb' : (m.setRegs g).pmInitialised = true := hb
    rw [pmInit, pmInit, if_pos hb, if_pos hb']
  · have hb' : ¬ (m.setRegs g).pmInitialised = true := hb
    rw [pmInit, pmInit, if_neg hb, if_neg hb']
    rfl

theorem pmAlloc_setRegs (bytes : Nat) :
    pmAlloc (m.setRegs g) bytes = ((pmAlloc m bytes).1.setRegs g, (pmAlloc m bytes).2) := by
  unfold pmAlloc
  rw [pmInit_setRegs]
  dsimp only [setRegs]
  split_ifs <;> rfl

theorem pmResize_setRegs (base bytes : Nat) :
    pmResize (m.setRegs g) base bytes = ((pmResize m base bytes).1.setRegs g, (pmResize m base bytes).2) := by
  unfold pmResize
  rw [pmInit_setRegs]
  dsimp only [setRegs]
  cases pmFind base (pmInit m).pmBusy with
  | none =>
    dsimp only
    split_ifs <;> rfl
  | some r =>
    dsimp only
    split_ifs <;> rfl

end Host

theorem hostStep_mcbReady : HostStep mcbReady := by
  refine ⟨mcbReady_setRegs, fun m => ?_⟩
  unfold mcbReady
  split <;> rfl

theorem hostStep_mcbFree (seg : Nat) : HostStep fun m => (mcbFree m seg).1 := by
  refine ⟨fun m regs => by rw [mcbFree_setRegs], fun m => ?_⟩
  unfold mcbFree
  split <;> rfl

theorem hostStep_mcbResize (seg size : Nat) : HostStep fun m => (mcbResize m seg size).1 := by
  refine ⟨fun m regs => by rw [mcbResize_setRegs], fun m => ?_⟩
  unfold mcbResize
  split <;> rfl

theorem hostStep_pmInit : HostStep pmInit := by
  refine ⟨pmInit_setRegs, fun m => ?_⟩
  unfold pmInit
  split <;> rfl

theorem hostStep_pmAlloc (bytes : Nat) : HostStep fun m => (pmAlloc m bytes).1 := by
  refine ⟨fun m regs => by rw [pmAlloc_setRegs], fun m => ?_⟩
  obtain ⟨mem, busy, h⟩ := pmAlloc_frame m bytes
  rw [h]
  exact hostStep_pmInit.regs m

theorem hostStep_pmResize (base bytes : Nat) : HostStep fun m => (pmResize m base bytes).1 := by
  refine ⟨fun m regs => by rw [pmResize_setRegs], fun m => ?_⟩
  obtain ⟨busy, h⟩ := pmResize_frame m base bytes
  rw [h]
  exact hostStep_pmInit.regs m

theorem hostStep_pmFree (base : Nat) : HostStep fun m => (pmFree m base).1 := ⟨fun _ _ => rfl, fun _ => rfl⟩

theorem hostStep_load {eng : Engine} (heng : LoadsBlind eng) (s : SegName) (v : Nat) :
    HostStep fun m => cpuSetSegGeneral eng m s v := by
  refine ⟨fun m regs => ?_, fun _ => rfl⟩
  have hload := heng m.mem m.cpu regs s v
  unfold cpuSetSegGeneral
  rw [setRegs, hload]
  rfl

theorem hostStep_reload {eng : Engine} (heng : LoadsBlind eng) (sel : Nat) :
    HostStep fun m => reloadLoadedSelector eng m sel := by
  have hstep : ∀ segs : List SegName, HostStep fun m => segs.foldl
      (fun m s => if m.segVal s / 4 * 4 = sel / 4 * 4 then cpuSetSegGeneral eng m s (m.segVal s) else m) m := by
    intro segs
    induction segs with
    | nil => exact ⟨fun _ _ => rfl, fun _ => rfl⟩
    | cons s segs ih =>
      constructor
      · intro m regs
        rw [List.foldl_cons, List.foldl_cons, ← ih.comm]
        congr 1
        have hload := (hostStep_load heng s (m.segVal s)).comm m regs
        by_cases hkey : m.segVal s / 4 * 4 = sel / 4 * 4
        · rw [if_pos hkey, ← hload]
          exact if_pos hkey
        · rw [if_neg hkey]
          exact if_neg hkey
      · intro m
        refine (ih.regs _).trans ?_
        dsimp only
        split_ifs <;> rfl
  unfold reloadLoadedSelector
  dsimp only
  split_ifs
  · exact ⟨fun _ _ => rfl, fun _ => rfl⟩
  · exact hstep _

/-! ### The services -/

section Services

variable {m m' : Machine}

theorem SameWords.bx (h : SameWords m m') : m'.bx = m.bx := h.words .ebx

theorem SameWords.cx (h : SameWords m m') : m'.cx = m.cx := h.words .ecx

theorem SameWords.dx (h : SameWords m m') : m'.dx = m.dx := h.words .edx

theorem SameWords.si (h : SameWords m m') : m'.si = m.si := h.words .esi

theorem SameWords.di (h : SameWords m m') : m'.di = m.di := h.words .edi

theorem SameWords.bl (h : SameWords m m') : m'.bl = m.bl := h.r8l .ebx

theorem SameWords.sizeArg (h : SameWords m m') : sizeArg m' = sizeArg m := by
  rw [Dosiz.sizeArg, Dosiz.sizeArg, h.bx, h.cx]

theorem SameWords.handleArg (h : SameWords m m') : handleArg m' = handleArg m := by
  rw [Dosiz.handleArg, Dosiz.handleArg, h.si, h.di]

theorem SameWords.answers (h : SameWords m m') (cf : Bool) : AnswerAlike (some (m, cf)) (some (m', cf)) :=
  .some ⟨h, rfl⟩

theorem SameWords.fails (h : SameWords m m') (code : Nat) :
    AnswerAlike (some (failWith m code)) (some (failWith m' code)) := (h.setR16 .eax code).answers true

/-- It is enough to look at one machine with other registers. -/
theorem alike_of_setRegs {f : Machine → Reply}
    (hf : ∀ m g, SameWords m (m.setRegs g) → AnswerAlike (f m) (f (m.setRegs g))) : Alike f := by
  intro m m' h
  rw [h.eq]
  refine hf m _ ?_
  rw [← h.eq]
  exact h

/-- Both callers take the same branch. -/
theorem AnswerAlike.ite {c c' : Prop} [Decidable c] [Decidable c'] {x x' y y' : Reply} (hc : c' ↔ c)
    (hx : AnswerAlike x x') (hy : AnswerAlike y y') :
    AnswerAlike (if c then x else y) (if c' then x' else y') := by
  by_cases h : c
  · rw [if_pos h, if_pos (hc.mpr h)]
    exact hx
  · rw [if_neg h, if_neg fun h' => h (hc.mp h')]
    exact hy

theorem alike_succeed : Alike succeed := fun _ _ h => h.answers false

theorem alike_0000 : Alike int31_0000 := by
  refine alike_of_setRegs fun m g h => ?_
  unfold int31_0000
  dsimp only
  rw [h.cx]
  refine .ite Iff.rfl (h.fails 0x8021) (.ite Iff.rfl (h.fails 0x8011) ?_)
  refine SameWords.answers (SameWords.setR16 ?_ .eax _) false
  change SameWords _ ((List.range m.cx).foldl
    (fun r i => installLdt r (ldtFindRun m m.cx + i) 0 0xFFFF (clientDataAccess m)) (m.setRegs g))
  generalize m.setRegs g = m' at h
  generalize List.range m.cx = is
  generalize clientDataAccess m = access
  generalize ldtFindRun m m.cx = start
  induction is generalizing m m' with
  | nil => exact h
  | cons i is ih => exact ih _ _ (h.installLdt (start + i) 0 0xFFFF access)

theorem alike_0001 : Alike int31_0001 := by
  refine alike_of_setRegs fun m g h => ?_
  have harg : freeArg (m.setRegs g) = freeArg m := by
    rw [freeArg, h.bx]
    rfl
  unfold int31_0001
  rw [harg]
  cases freeArg m with
  | none => exact h.fails 0x8022
  | some idx => exact ((h.ldtSet idx false).setCache _).answers false

theorem alike_0002 : Alike int31_0002 := by
  refine alike_of_setRegs fun m g h => ?_
  unfold int31_0002
  dsimp only
  rw [h.bx]
  refine .ite Iff.rfl ((h.setR16 .eax _).answers false) (.ite Iff.rfl (h.fails 0x8011) ?_)
  exact (((h.installLdt _ _ _ _).setCache _).setR16 .eax _).answers false

theorem alike_0003 : Alike int31_0003 := fun _ _ h => (h.setR16 .eax 8).answers false

theorem alike_0006 : Alike int31_0006 := by
  refine alike_of_setRegs fun m g h => ?_
  unfold int31_0006 bxDesc
  rw [h.bx]
  exact .ite Iff.rfl (h.fails 0x8022) ((h.setR16s _).answers false)

/-- A service that edits one descriptor. -/
theorem alike_editDesc {eng : Engine} (heng : LoadsBlind eng) {m : Machine} {g : Reg → BitVec 32}
    (h : SameWords m (m.setRegs g)) (f : Mem → Nat → Mem) :
    AnswerAlike (editDesc eng m f) (editDesc eng (m.setRegs g) f) := by
  unfold editDesc bxDesc
  rw [h.bx]
  exact .ite Iff.rfl (h.fails 0x8022) (((h.setMem _).host (hostStep_reload heng m.bx)).answers false)

theorem alike_0007 {eng : Engine} (heng : LoadsBlind eng) : Alike (int31_0007 eng) := by
  refine alike_of_setRegs fun m g h => ?_
  unfold int31_0007
  dsimp only
  rw [h.cx, h.dx]
  exact alike_editDesc heng h _

theorem alike_0008 {eng : Engine} (heng : LoadsBlind eng) : Alike (int31_0008 eng) := by
  refine alike_of_setRegs fun m g h => ?_
  unfold int31_0008
  dsimp only
  rw [h.cx, h.dx]
  exact alike_editDesc heng h _

theorem alike_0009 {eng : Engine} (heng : LoadsBlind eng) : Alike (int31_0009 eng) := by
  refine alike_of_setRegs fun m g h => ?_
  unfold int31_0009
  rw [h.r8l, h.r8h]
  exact alike_editDesc heng h _

theorem alike_000A : Alike int31_000A := by
  refine alike_of_setRegs fun m g h => ?_
  unfold int31_000A bxDesc
  dsimp only
  rw [h.bx]
  refine .ite Iff.rfl (h.fails 0x8022) (.ite Iff.rfl (h.fails 0x8011) ?_)
  exact ((h.installLdt _ _ _ _).setR16 .eax _).answers false

theorem alike_000D : Alike int31_000D := by
  refine alike_of_setRegs fun m g h => ?_
  unfold int31_000D
  dsimp only
  rw [h.bx]
  exact .ite Iff.rfl (h.fails 0x8022) (.ite Iff.rfl (h.fails 0x8011) ((h.installLdt _ _ _ _).answers false))

theorem alike_0200 : Alike int31_0200 := by
  refine alike_of_setRegs fun m g h => ?_
  unfold int31_0200
  dsimp only
  rw [h.bl]
  exact (h.setR16s _).answers false

theorem alike_0201 : Alike int31_0201 := by
  refine alike_of_setRegs fun m g h => ?_
  unfold int31_0201
  dsimp only
  rw [h.bl, h.cx, h.dx]
  exact (h.setMem _).answers false

theorem alike_0202 : Alike int31_0202 := by
  refine alike_of_setRegs fun m g h => ?_
  unfold int31_0202
  rw [h.bl]
  exact .ite Iff.rfl (h.fails 0x8021) (((h.setR16 .ecx _).setEdx _).answers false)

theorem alike_0204 : Alike int31_0204 := by
  refine alike_of_setRegs fun m g h => ?_
  unfold int31_0204
  dsimp only
  rw [h.bl]
  exact ((h.setR16 .ecx _).setEdx _).answers false

theorem alike_0304 : Alike int31_0304 := by
  refine alike_of_setRegs fun m g h => ?_
  unfold int31_0304
  dsimp only
  rw [h.cx, h.dx]
  have hcallbacks : (m.setRegs g).rmCallbacks = m.rmCallbacks := rfl
  rw [hcallbacks]
  cases m.rmCallbacks.findIdx? fun cb => cb.allocated && cb.rmAddr == m.cx * 65536 + m.dx with
  | none => exact h.fails 0x8024
  | some slot => exact (h.setCallbacks _).answers false

theorem SameWords.noop {m m' : Machine} (h : SameWords m m') : SameWords (noopRoutines m) (noopRoutines m') := by
  have hstubs : m'.stubs = m.stubs := by
    rw [h.eq]
    rfl
  unfold noopRoutines
  dsimp only
  rw [hstubs]
  refine (h.setR16s _).setR32 .edi rfl ?_
  intro hr
  cases hr

theorem alike_0305 : Alike int31_0305 := fun _ _ h => (h.setR16 .eax 0).noop.answers false

theorem alike_0306 : Alike int31_0306 := fun _ _ h => h.noop.answers false

theorem alike_0400 : Alike int31_0400 := fun _ _ h =>
  ((((h.setR16s _).setR8l .ecx 3).setR8h .edx 0x08).setR8l .edx 0x70).answers false

theorem alike_0508 : Alike int31_0508 := fun _ _ h => h.fails 0x8025

theorem alike_0604 : Alike int31_0604 := fun _ _ h => (h.setR16s _).answers false

theorem alike_09 (new : Bool → Bool) : Alike (int31_09 new) := by
  refine alike_of_setRegs fun m g h => ?_
  unfold int31_09
  exact ((h.setR8l .eax _).setVirtualIf _).answers false

theorem alike_0B00 : Alike int31_0B00 := fun _ _ h => (h.setR16 .ebx 0).answers false

theorem alike_0E00 : Alike int31_0E00 := fun _ _ h => (h.setR16 .eax 0x31).answers false

/-! ### Memory blocks -/

/-- An allocation of a DOS block, for both callers. -/
theorem SameWords.mcbAllocate {m : Machine} {g : Reg → BitVec 32} (h : SameWords m (m.setRegs g)) (need : Nat) :
    (mcbAllocate m need = none ∧ mcbAllocate (m.setRegs g) need = none) ∨
      ∃ q seg largest, mcbAllocate m need = some (q, seg, largest) ∧
        mcbAllocate (m.setRegs g) need = some (q.setRegs g, seg, largest) ∧ SameWords q (q.setRegs g) := by
  rw [mcbAllocate_setRegs]
  cases halloc : Mcb.mcbAllocate m need with
  | none => exact Or.inl ⟨rfl, rfl⟩
  | some r =>
    obtain ⟨q, seg, largest⟩ := r
    refine Or.inr ⟨q, seg, largest, rfl, rfl, ?_⟩
    have hmem : q = (mcbReady m).setMem q.mem := by
      unfold Mcb.mcbAllocate at halloc
      dsimp only at halloc
      split at halloc
      · cases halloc
      · simp only [Option.some.injEq, Prod.mk.injEq] at halloc
        rw [← halloc.1]
        rfl
    have hready := (h.host hostStep_mcbReady).setMem q.mem
    rw [mcbReady_setRegs] at hready
    rw [hmem]
    exact hready

theorem alike_0100 : Alike int31_0100 := by
  refine alike_of_setRegs fun m g h => ?_
  unfold int31_0100
  rw [h.bx]
  refine .ite Iff.rfl (h.fails 0x8021) ?_
  rcases h.mcbAllocate m.bx with ⟨hnone, hnone'⟩ | ⟨q, seg, largest, hsome, hsome', hq⟩
  · rw [hnone, hnone']
    exact .none
  · rw [hsome, hsome']
    dsimp only
    refine .ite Iff.rfl ((hq.setR16s _).answers true) (.ite Iff.rfl ?_ ?_)
    · have hfree := hq.host (hostStep_mcbFree seg)
      exact hfree.fails 0x8011
    · have hbx : (ldtSet (q.setRegs g) (ldtFindRun (q.setRegs g) 1) true).bx =
          (ldtSet q (ldtFindRun q 1) true).bx := hq.bx
      rw [hbx]
      have hslot := hq.ldtSet (ldtFindRun q 1) true
      exact (((hslot.setMem _).setCache _).setR16s _).answers false

theorem alike_0101 : Alike int31_0101 := by
  refine alike_of_setRegs fun m g h => ?_
  unfold int31_0101
  rw [h.dx]
  have hslot : dosBlockSlot (m.setRegs g) m.dx = dosBlockSlot m m.dx := rfl
  rw [hslot]
  cases dosBlockSlot m m.dx with
  | none => exact h.fails 0x8022
  | some idx =>
    have hseg : slotDataSeg (m.setRegs g) idx = slotDataSeg m idx := rfl
    dsimp only
    rw [hseg, mcbFree_setRegs]
    have hfree := h.host (hostStep_mcbFree (slotDataSeg m idx))
    rw [mcbFree_setRegs] at hfree
    exact (((hfree.setCache _).ldtSet idx false).setMem _).answers false

theorem alike_0102 : Alike int31_0102 := by
  refine alike_of_setRegs fun m g h => ?_
  unfold int31_0102
  rw [h.bx]
  have hslot : dosBlockSlot (m.setRegs g) m.bx = dosBlockSlot m m.bx := rfl
  rw [hslot]
  cases dosBlockSlot m m.bx with
  | none => exact h.fails 0x8022
  | some idx =>
    have hseg : slotDataSeg (m.setRegs g) idx = slotDataSeg m idx := rfl
    dsimp only
    rw [hseg, h.dx, mcbResize_setRegs]
    have hsize := h.host (hostStep_mcbResize (slotDataSeg m idx) m.dx)
    rw [mcbResize_setRegs] at hsize
    exact .ite Iff.rfl ((hsize.setR16s _).answers true) ((hsize.setMem _).answers false)

theorem alike_0501 : Alike int31_0501 := by
  refine alike_of_setRegs fun m g h => ?_
  unfold int31_0501
  dsimp only
  rw [h.sizeArg, pmAlloc_setRegs]
  have hq := h.host (hostStep_pmAlloc (sizeArg m))
  rw [pmAlloc_setRegs] at hq
  refine .ite Iff.rfl (h.fails 0x8021) (.ite Iff.rfl ((hq.setR16s _).answers false) ?_)
  refine .ite Iff.rfl ?_ (hq.fails 0x8012)
  dsimp only at hq ⊢
  rcases hq.mcbAllocate (bytesToParas (sizeArg m)) with
    ⟨hnone, hnone'⟩ | ⟨q, seg, largest, hsome, hsome', hblock⟩
  · rw [hnone, hnone']
    exact .none
  · rw [hsome, hsome']
    exact .ite Iff.rfl ((hblock.setR16s _).answers false) (hblock.fails 0x8012)

theorem alike_0502 : Alike int31_0502 := by
  refine alike_of_setRegs fun m g h => ?_
  unfold int31_0502
  dsimp only
  rw [h.si, h.di, h.handleArg, mcbFree_setRegs]
  have hdos := h.host (hostStep_mcbFree m.di)
  rw [mcbFree_setRegs] at hdos
  have hpm := h.host (hostStep_pmFree (handleArg m))
  refine .ite Iff.rfl (.ite Iff.rfl (h.fails 0x8023) ?_) ?_
  · exact .ite Iff.rfl (hdos.answers false) (hdos.fails 0x8023)
  · exact .ite Iff.rfl (hpm.answers false) (hpm.fails 0x8023)

theorem alike_0503 : Alike int31_0503 := by
  refine alike_of_setRegs fun m g h => ?_
  unfold int31_0503
  dsimp only
  rw [h.sizeArg, h.si, h.di, h.handleArg, mcbResize_setRegs, pmResize_setRegs]
  have hdos := h.host (hostStep_mcbResize m.di (bytesToParas (sizeArg m)))
  have hpm := h.host (hostStep_pmResize (handleArg m) (sizeArg m))
  rw [mcbResize_setRegs] at hdos
  rw [pmResize_setRegs] at hpm
  refine .ite Iff.rfl (h.fails 0x8021) (.ite Iff.rfl ?_ ?_)
  · refine .ite Iff.rfl (h.fails 0x8023) (.ite Iff.rfl (h.fails 0x8012) ?_)
    exact .ite Iff.rfl (hdos.fails 0x8012) ((hdos.setR16s _).answers false)
  · exact .ite Iff.rfl ((hpm.setR16s _).answers false) (hpm.fails 0x8012)

/-- Every function but the wide ones. -/
theorem int31_alike {eng : Engine} (heng : LoadsBlind eng) :
    ∀ p ∈ int31Table eng, p.1 ∉ wideCalls → Alike p.2 := by
  have hwide : ∀ {ax : Nat} {f : Machine → Reply}, ax ∈ wideCalls → ax ∉ wideCalls → Alike f :=
    fun h h' => absurd h h'
  simp only [int31Table, List.forall_mem_cons, List.not_mem_nil, IsEmpty.forall_iff, implies_true, and_true]
  exact ⟨fun _ => alike_0400, hwide (by decide), fun _ => alike_0000, fun _ => alike_0001, fun _ => alike_0002,
    fun _ => alike_0003, fun _ => alike_0008 heng, fun _ => alike_0009 heng, fun _ => alike_000A, hwide (by decide),
    hwide (by decide), fun _ => alike_000D, fun _ => alike_0100, fun _ => alike_0102, fun _ => alike_0101,
    fun _ => alike_0202, hwide (by decide), fun _ => alike_0305, hwide (by decide), fun _ => alike_0304,
    fun _ => alike_0306, fun _ => alike_succeed, fun _ => alike_succeed, fun _ => alike_succeed,
    fun _ => alike_succeed, fun _ => alike_succeed, fun _ => alike_succeed, fun _ => alike_succeed,
    fun _ => alike_0B00, fun _ => alike_0B00, fun _ => alike_0B00, fun _ => alike_0B00, fun _ => alike_0604,
    fun _ => alike_succeed, fun _ => alike_0204, hwide (by decide), fun _ => alike_09 _, fun _ => alike_09 _,
    fun _ => alike_09 _, fun _ => alike_0200, fun _ => alike_0201, hwide (by decide), fun _ => alike_0006,
    fun _ => alike_0007 heng, fun _ => alike_0501, fun _ => alike_0502, fun _ => alike_0503, hwide (by decide),
    fun _ => alike_succeed, fun _ => alike_0508, fun _ => alike_0508, fun _ => alike_0E00, fun _ => alike_succeed⟩

theorem dispatch_alike {eng : Engine} (heng : LoadsBlind eng) {ax : Nat} (hax : ax ∉ wideCalls) :
    Alike (((int31Table eng).lookup ax).getD int31_default) := by
  cases hfind : (int31Table eng).lookup ax with
  | none => exact fun _ _ h => h.fails 0x8001
  | some f =>
    obtain ⟨before, after, htable, -⟩ := List.lookup_eq_some_iff.mp hfind
    exact int31_alike heng (ax, f) (htable ▸ List.mem_append_right before List.mem_cons_self) hax

end Services

/-! ### The two callers of a wide function -/

/-- A descriptor with base 0 in the first slot of the LDT, and a byte behind the first 64 KB. -/
def callerMem : Mem := writeb (writeb (fun _ => 0) (LDT_BASE + 8) 7) 0x10600 9

/-- A caller of `ax` with the selector of that slot in BX, 1 in CX, and the offset in EDX, ESI and EDI. -/
def caller (ax off : Nat) : Machine :=
  ((bootMachine.setMem callerMem).setR16s [(.eax, ax), (.ebx, 0x0C), (.ecx, 1)]).setR32 .edx off
    |>.setR32 .esi off |>.setR32 .edi off

/-- What the services store: at the offset, in the slot, in the gate of vector 12, and in the callbacks. -/
def stored (m : Machine) : List Nat × List RmCallback :=
  ([0x10600, 0x10601, 0x1060C, LDT_BASE + 8, IDT_BASE + 0x66].map (readb m.mem), m.rmCallbacks)

theorem sameWords_caller (ax : Nat) : SameWords (caller ax 0x600) (caller ax 0x10600) := by
  have h := SameWords.refl ((bootMachine.setMem callerMem).setR16s [(.eax, ax), (.ebx, 0x0C), (.ecx, 1)])
  have hset : ∀ {m m' : Machine} (r : Reg), r ≠ .esp → SameWords m m' →
      SameWords (m.setR32 r 0x600) (m'.setR32 r 0x10600) :=
    fun r hr h => h.setR32 r rfl fun he => absurd he hr
  exact hset .edi (by decide) (hset .esi (by decide) (hset .edx (by decide) h))

/-- No register holds the selector. -/
theorem reload_none (eng : Engine) {m : Machine} {sel : Nat} (h : ∀ s, m.segVal s / 4 * 4 ≠ sel / 4 * 4) :
    reloadLoadedSelector eng m sel = m := by
  unfold reloadLoadedSelector
  dsimp only
  split_ifs
  · rfl
  · simp only [List.foldl_cons, List.foldl_nil, if_neg (h _)]

theorem stored_000C (eng : Engine) :
    (dosizInt31 eng (caller 0x000C 0x600)).map stored ≠ (dosizInt31 eng (caller 0x000C 0x10600)).map stored := by
  have hbx : ∀ off ∈ [0x600, 0x10600], (caller 0x000C off).bx = 0x0C := by decide +kernel
  have hcall : ∀ off ∈ [0x600, 0x10600], dosizInt31 eng (caller 0x000C off) =
      some (setCf ((caller 0x000C off).setMem (copyDesc (caller 0x000C off).mem (bxDesc (caller 0x000C off))
        (esBuffer (caller 0x000C off) .edi))) false) := by
    intro off hoff
    change finish (int31_000C eng (caller 0x000C off)) = _
    rw [int31_000C, editDesc, hbx off hoff, if_neg (by decide), reload_none]
    · rfl
    · intro s hs
      change 0 / 4 * 4 = 0x0C / 4 * 4 at hs
      exact absurd hs (by decide)
  rw [hcall 0x600 (by decide), hcall 0x10600 (by decide)]
  decide +kernel

theorem stored_ne (eng : Engine) : ∀ ax ∈ wideCalls,
    (dosizInt31 eng (caller ax 0x600)).map stored ≠ (dosizInt31 eng (caller ax 0x10600)).map stored := by
  simp only [wideCalls, List.forall_mem_cons]
  refine ⟨?_, stored_000C eng, ?_, ?_, ?_, ?_, ?_, ?_, fun _ h => absurd h List.not_mem_nil⟩ <;>
    exact of_decide_eq_true (Eq.refl true)

theorem caller_ax : ∀ ax ∈ wideCalls, (caller ax 0x600).ax = ax := by decide +kernel

theorem SameWords.stored {m m' : Machine} (h : SameWords m m') : stored m = stored m' := by
  rw [h.eq]
  rfl

/-- **Which DPMI services look at the high words.**  Two callers of a function that agree in everything but the high
    words of their general registers get answers that differ there at most, exactly if it is none of the eight that
    take all of EDX, ESI or EDI; those store in another place, or another address, whatever the width of the gate. -/
theorem int31_words_iff {eng : Engine} (heng : LoadsBlind eng) {ax : Nat} (_hax : runsGuest ax = false) :
    (∀ m m', m.ax = ax → SameWords m m' → Option.Rel SameWords (dosizInt31 eng m) (dosizInt31 eng m')) ↔
      ax ∉ wideCalls := by
  constructor
  · intro halike hwide
    refine stored_ne eng ax hwide ?_
    have hrel := halike _ _ (caller_ax ax hwide) (sameWords_caller ax)
    generalize dosizInt31 eng (caller ax 0x600) = x at hrel
    generalize dosizInt31 eng (caller ax 0x10600) = y at hrel
    cases hrel with
    | none => rfl
    | some hsame => exact congrArg some hsame.stored
  · intro hnarrow m m' hm h
    have hanswer := dispatch_alike heng hnarrow m m' h
    have hm' : m'.ax = ax := (h.words .eax).trans hm
    rw [dosizInt31, dosizInt31, hm, hm']
    generalize ((int31Table eng).lookup ax).getD int31_default m = x at hanswer ⊢
    generalize ((int31Table eng).lookup ax).getD int31_default m' = y at hanswer ⊢
    cases hanswer with
    | none => exact .none
    | some hsame =>
      rename_i r r'
      obtain ⟨q, cf⟩ := r
      obtain ⟨q', cf'⟩ := r'
      obtain ⟨hq, rfl⟩ := hsame
      exact .some (hq.setCf cf)

theorem tableEngine_blind : LoadsBlind tableEngine := fun _ _ _ _ _ => rfl

/-- AX=0201 through a 16-bit gate, whatever is in the high word of EDX. -/
theorem int31_words_iff_vector : Option.Rel SameWords (dosizInt31 tableEngine (caller 0x0201 0x600))
    (dosizInt31 tableEngine (caller 0x0201 0x10600)) :=
  (int31_words_iff tableEngine_blind rfl).mpr (by decide) _ _ rfl (sameWords_caller 0x0201)

end Dosiz.HighWords
