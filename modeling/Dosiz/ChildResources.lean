/-
  Dosiz/ChildResources.lean
  =========================
  **What a child leaves behind** (INT 21h AH=4B AL=0 and AH=4C of `bridge.cc`).

  No block, callback slot or handle belongs to a process: at the child's end AH=4B frees
  the two blocks it has allocated for it, and nothing else.  `childResources_iff`: what
  was there before the call is there after it, and nothing more, exactly if the child has
  given back what it took and left the rest alone.
-/
import Dosiz.ChildBlocks
import Dosiz.ChildExit

namespace Dosiz.ChildResources

open ByteMemory BlockChain Machine Mcb ChildEnv ChildBlocks Nesting Transition

/-! ### Resources -/

/-- The allocated blocks of the MCB chain, with their positions. -/
def mcbBlocks (m : Machine) : Set (Nat × Block Nat) :=
  { p | m.mcbInitialised = true ∧ ∃ bs, Chain m.mem bs ∧ Allocated bs p.1 p.2 }

/-- The callback slots AX=0303 has given out. -/
def callbackSlots (m : Machine) : Set Nat := { i | ∃ cb, m.rmCallbacks[i]? = some cb ∧ cb.allocated = true }

/-- The blocks of both arenas, the callback slots and the files behind the handles are the same. -/
structure SameResources (m m' : Machine) : Prop where
  blocks : ∀ p : Nat × Block Nat, p ∈ mcbBlocks m' ↔ p ∈ mcbBlocks m
  above : ∀ e, e ∈ m'.pmBusy ↔ e ∈ m.pmBusy
  slots : ∀ i, i ∈ callbackSlots m' ↔ i ∈ callbackSlots m
  files : ∀ h, fileOf m' h = fileOf m h

/-- The child with process state `ps` has given back at `m'` what it took since `m`: only its two own
    blocks are new, and nothing is missing. -/
structure GivenBack (ps : ProcessState) (m m' : Machine) : Prop where
  blocks : ∀ p : Nat × Block Nat,
    (p ∈ mcbBlocks m' ∧ p.1 + 1 ≠ ps.childDataSeg ∧ p.1 + 1 ≠ ps.childEnvSeg) ↔ p ∈ mcbBlocks m
  above : ∀ e, e ∈ m'.pmBusy ↔ e ∈ m.pmBusy
  slots : ∀ i, i ∈ callbackSlots m' ↔ i ∈ callbackSlots m
  files : ∀ h, fileOf m' h = fileOf m h

/-- The host's side of the resources is the same. -/
structure SameTables (m m' : Machine) : Prop where
  busy : m'.pmBusy = m.pmBusy
  callbacks : m'.rmCallbacks = m.rmCallbacks
  handles : m'.handles = m.handles
  fds : m'.fds = m.fds

theorem SameTables.trans {m m' m'' : Machine} (h : SameTables m m') (h' : SameTables m' m'') :
    SameTables m m'' :=
  ⟨h'.busy.trans h.busy, h'.callbacks.trans h.callbacks, h'.handles.trans h.handles, h'.fds.trans h.fds⟩

theorem SameGlobals.tables {m m' : Machine} (h : SameGlobals m m') : SameTables m m' := by
  rw [h.eq]
  exact ⟨rfl, rfl, rfl, rfl⟩

section Resources

variable {m m' : Machine}

theorem SameTables.files (h : SameTables m m') (k : Nat) : fileOf m' k = fileOf m k := by
  rw [fileOf, fileOf, h.handles, h.fds]

theorem SameTables.slots (h : SameTables m m') : callbackSlots m' = callbackSlots m := by
  rw [callbackSlots, callbackSlots, h.callbacks]

theorem mcbBlocks_of_chain {bs : List (Block Nat)} (hi : m.mcbInitialised = true) (hc : Chain m.mem bs)
    (p : Nat × Block Nat) : p ∈ mcbBlocks m ↔ Allocated bs p.1 p.2 := by
  constructor
  · rintro ⟨-, bs', hc', ha⟩
    rwa [hc.unique hc']
  · exact fun ha => ⟨hi, bs, hc, ha⟩

end Resources

/-! ### Freeing -/

/-- Freeing a block makes no new header. -/
theorem headerBytes_release (pre post : List (Block Nat)) (b : Block Nat) :
    headerBytes (pre ++ release 0 b post) ⊆ headerBytes (pre ++ b :: post) := by
  have hretag : headerBytes (pre ++ ⟨0, b.size⟩ :: post) = headerBytes (pre ++ b :: post) :=
    headerBytes_retag pre post 0 b.tag b.size
  cases post with
  | nil => exact hretag.subset
  | cons c post =>
    simp only [release]
    by_cases hc : c.tag = 0
    · rw [if_pos hc]
      rintro x ⟨q, d, hm, hx⟩
      rw [List.append_cons, mem_place_append₃] at hm
      have hspan : span [join (⟨0, b.size⟩ : Block Nat) c] = span [b, c] := by
        simp only [join, span_cons, span_nil]
        omega
      rw [hspan] at hm
      have hold : ∃ e, (q, e) ∈ place MCB_ARENA_START (pre ++ [b, c] ++ post) := by
        rcases hm with hm | hm | hm
        · exact ⟨d, (mem_place_append₃ _ _ _).mpr (Or.inl hm)⟩
        · simp only [place, List.mem_singleton, Prod.mk.injEq] at hm
          rw [hm.1]
          exact ⟨b, (mem_place_append₃ _ _ _).mpr (Or.inr (Or.inl List.mem_cons_self))⟩
        · exact ⟨d, (mem_place_append₃ _ _ _).mpr (Or.inr (Or.inr hm))⟩
      obtain ⟨e, he⟩ := hold
      rw [List.append_assoc] at he
      exact ⟨q, e, he, hx⟩
    · rw [if_neg hc]
      exact hretag.subset

section Freeing

variable {m m' : Machine} {s : Nat} {bs : List (Block Nat)}

/-- `mcb_free` of a block: it is gone, the others stay, and no header is new. -/
theorem mcbFree_chain (hs : AllocatedSeg m s) (hc : Chain m.mem bs) :
    (mcbFree m s).1.mcbInitialised = true ∧ ∃ bs', Chain (mcbFree m s).1.mem bs' ∧
      headerBytes bs' ⊆ headerBytes bs ∧ ∀ q c, Allocated bs' q c ↔ Allocated bs q c ∧ q + 1 ≠ s := by
  obtain ⟨hi, bs₀, q, b, hc₀, ha, rfl⟩ := hs
  obtain rfl := hc₀.unique hc
  obtain ⟨pre, post, rfl, rfl⟩ := mem_place_iff.mp ha.1
  obtain ⟨-, hc', -⟩ := mcbFreeIn_chain hc
  have hmem : (mcbFree m (MCB_ARENA_START + span pre + 1)).1.mem =
      (mcbFreeIn m.mem (MCB_ARENA_START + span pre + 1)).1 := by
    rw [mcbFree, if_pos hi]
  refine ⟨?_, _, hmem ▸ hc', headerBytes_release pre post b, fun q c => ?_⟩
  · rw [mcbFree, if_pos hi]
    exact hi
  · rw [allocated_release b q c]
    exact and_congr_right fun _ => not_congr Nat.succ_inj.symm

/-- Writes outside the arena leave the blocks alone. -/
theorem allocatedSeg_outside (hs : AllocatedSeg m s) (hi : m'.mcbInitialised = m.mcbInitialised)
    (hoff : AgreesOff outsideArena m.mem m'.mem) : AllocatedSeg m' s := by
  obtain ⟨hi₀, bs, q, b, hc, ha, hq⟩ := hs
  exact ⟨hi.trans hi₀, bs, q, b, hc.frame hoff fun _ hx => headerBytes_inside hc hx, ha, hq⟩

end Freeing

/-! ### The end of the child -/

theorem foldl_mem {f : Machine → SegName → Machine} (hf : ∀ m s, (f m s).mem = m.mem) (m : Machine) :
    ∀ segs : List SegName, (segs.foldl f m).mem = m.mem := by
  intro segs
  induction segs generalizing m with
  | nil => rfl
  | cons s segs ih => exact (ih (f m s)).trans (hf m s)

theorem restoreSegments_mem (eng : Engine) (saved : ExecSaved) (ps : ProcessState) (m : Machine) :
    (restoreSegments eng saved ps m).mem = m.mem := by
  have hcs : ∀ q sel, (refreshCs q sel).mem = q.mem := fun _ _ => rfl
  have hreal : ∀ q, (restoreRealMode saved q).mem = q.mem := fun _ => rfl
  unfold restoreSegments
  split
  · exact (hcs _ _).trans
      (foldl_mem (f := fun m s => cpuSetSegGeneral eng m s (ps.segs s).toNat) (fun _ _ => rfl) m _)
  · exact (hreal _).trans (foldl_mem (f := fun m s => segSet16 eng m s (ps.segs s).toNat) (fun _ _ => rfl) m _)

/-- The parent's registers, tables and globals, before the child's blocks are freed. -/
def restored (eng : Engine) (saved : ExecSaved) (ps : ProcessState) (m : Machine) : Machine :=
  (((restoreSegments eng saved ps (parentTables saved m)).setEip ps.eip).setRegs ps.regs).setFlags ps.eflags

theorem restored_mem (eng : Engine) (saved : ExecSaved) (ps : ProcessState) (m : Machine) :
    AgreesOff outsideArena m.mem (restored eng saved ps m).mem := by
  have hmem : (restored eng saved ps m).mem = (parentTables saved m).mem := restoreSegments_mem eng saved ps _
  have htables : (parentTables saved m).mem = blit (blit m.mem LDT_BASE LDT_BYTES saved.ldt)
      PM_CB_STACK_BASE PM_CB_STACK_SIZE saved.cbStack := rfl
  rw [hmem, htables]
  refine ((blit_off _ _ _ _).mono fun x hx => ?_).trans ((blit_off _ _ _ _).mono fun x hx => ?_)
  · exact Or.inr (le_trans (by decide) hx.1)
  · exact Or.inr (le_trans (by decide) hx.1)

theorem restored_globals (eng : Engine) (saved : ExecSaved) (ps : ProcessState) (m : Machine) :
    SameGlobals (parentTables saved m) (restored eng saved ps m) := by
  unfold restored
  exact (((sameGlobals_restoreSegments eng saved ps (parentTables saved m)).trans
    (sameGlobals_setEip _ ps.eip)).trans (sameGlobals_setRegs _ ps.regs)).trans
    (sameGlobals_setFlags _ ps.eflags)

theorem restored_init (eng : Engine) (saved : ExecSaved) (ps : ProcessState) (m : Machine) :
    (restored eng saved ps m).mcbInitialised = m.mcbInitialised := by
  rw [(restored_globals eng saved ps m).eq]
  rfl

section End

variable {eng : Engine} {saved : ExecSaved} {m : Machine} {ps : ProcessState} {tl : List ProcessState}

theorem execEnd_eq (h : m.processStack = ps :: tl) (henv : ps.childEnvSeg ≠ 0) :
    (execEnd eng saved m).1 = setCf ((setLastChildExit (mcbFree (mcbFree (restored eng saved ps m)
      ps.childDataSeg).1 ps.childEnvSeg).1 ps.childExitCode).setR8l .eax ps.childExitCode) false := by
  unfold execEnd
  rw [h]
  dsimp only
  rw [if_pos henv]
  rfl

/-- AH=4B frees the child's two blocks, and no other. -/
theorem execEnd_blocks (h : m.processStack = ps :: tl) (hpsp : AllocatedSeg m ps.childDataSeg)
    (henv : AllocatedSeg m ps.childEnvSeg) (hne : ps.childDataSeg ≠ ps.childEnvSeg)
    (hflags : ∀ bs, Chain m.mem bs → flagsAddr (execEnd eng saved m).1 ∉ headerBytes bs)
    (p : Nat × Block Nat) : p ∈ mcbBlocks (execEnd eng saved m).1 ↔
      p ∈ mcbBlocks m ∧ p.1 + 1 ≠ ps.childDataSeg ∧ p.1 + 1 ≠ ps.childEnvSeg := by
  have hi : m.mcbInitialised = true := hpsp.1
  have henv₀ : ps.childEnvSeg ≠ 0 := by
    obtain ⟨-, _, _, _, -, -, hq⟩ := henv
    rw [hq]
    exact Nat.succ_ne_zero _
  obtain ⟨bs, hc⟩ : ∃ bs, Chain m.mem bs := by
    obtain ⟨-, bs, _, _, hc, -⟩ := hpsp
    exact ⟨bs, hc⟩
  have hoff := restored_mem eng saved ps m
  have hinit := restored_init eng saved ps m
  have hc₁ : Chain (restored eng saved ps m).mem bs := hc.frame hoff fun _ hx => headerBytes_inside hc hx
  have hpsp₁ := allocatedSeg_outside hpsp hinit hoff
  have henv₁ := allocatedSeg_outside henv hinit hoff
  have heq := @execEnd_eq eng saved m ps tl h henv₀
  generalize restored eng saved ps m = q at hc₁ hpsp₁ henv₁ heq
  obtain ⟨hi₂, bs₂, hc₂, hsub₂, hall₂⟩ := mcbFree_chain hpsp₁ hc₁
  have henv₂ : AllocatedSeg (mcbFree q ps.childDataSeg).1 ps.childEnvSeg := by
    obtain ⟨-, bs', r, b, hc', ha, hr⟩ := henv₁
    obtain rfl := hc'.unique hc₁
    exact ⟨hi₂, bs₂, r, b, hc₂, (hall₂ r b).mpr ⟨ha, fun hr' => hne (hr'.symm.trans hr.symm)⟩, hr⟩
  generalize (mcbFree q ps.childDataSeg).1 = q₂ at hi₂ hc₂ henv₂ heq
  obtain ⟨hi₃, bs₃, hc₃, hsub₃, hall₃⟩ := mcbFree_chain henv₂ hc₂
  generalize (mcbFree q₂ ps.childEnvSeg).1 = q₃ at hi₃ hc₃ heq
  have hi₄ : (setCf ((setLastChildExit q₃ ps.childExitCode).setR8l .eax ps.childExitCode) false).mcbInitialised =
      true := hi₃
  have hclear : flagsAddr (execEnd eng saved m).1 ∉ headerBytes bs₃ := fun hx =>
    hflags bs hc (hsub₂ (hsub₃ hx))
  rw [heq] at hclear ⊢
  have hchain : Chain (setCf ((setLastChildExit q₃ ps.childExitCode).setR8l .eax ps.childExitCode) false).mem
      bs₃ := by
    refine hc₃.frame (setCf_off _ _) fun x hx => ?_
    rw [Set.mem_singleton_iff.mp hx]
    exact hclear
  rw [mcbBlocks_of_chain hi₄ hchain, mcbBlocks_of_chain hi hc, hall₃, hall₂, and_assoc]

/-- The tables of the host at the end of the child. -/
theorem execEnd_tables (h : m.processStack = ps :: tl) (henv : ps.childEnvSeg ≠ 0) :
    SameTables m (execEnd eng saved m).1 := by
  have hfree : ∀ q s, SameTables q (mcbFree q s).1 := by
    intro q s
    unfold mcbFree
    split <;> exact ⟨rfl, rfl, rfl, rfl⟩
  have hrest : SameTables m (restored eng saved ps m) := by
    have htab : SameTables m (parentTables saved m) := ⟨rfl, rfl, rfl, rfl⟩
    exact htab.trans (SameGlobals.tables (restored_globals eng saved ps m))
  rw [execEnd_eq h henv]
  exact ((hrest.trans (hfree _ _)).trans (hfree _ _)).trans ⟨rfl, rfl, rfl, rfl⟩

end End

/-- **A child's resources.**  Once AH=4B has returned, what was there before the call is there, and
    nothing more, exactly if the child has given back what it took. -/
theorem childResources_iff {eng : Engine} {s₂ s₃ s₄ : State} {saved : ExecSaved} {rest : List Level}
    {ps : ProcessState} {tl : List ProcessState} (before : Machine) (hl : s₂.levels = .exec saved :: rest)
    (hps : s₂.m.processStack = ps :: tl) (hpsp : AllocatedSeg s₂.m ps.childDataSeg)
    (henv : AllocatedSeg s₂.m ps.childEnvSeg) (hne : ps.childDataSeg ≠ ps.childEnvSeg)
    (h₃ : step eng s₂ .exit s₃) (h₄ : step eng s₃ .unwind s₄)
    (hflags : ∀ bs, Chain s₂.m.mem bs → flagsAddr s₄.m ∉ headerBytes bs) :
    SameResources before s₄.m ↔ GivenBack ps before s₂.m := by
  obtain ⟨-, -, rfl⟩ := h₃
  obtain rfl := unwind_eq h₄ hl
  have hexit : int21_4C s₂.m = { s₂.m with
      processStack := { ps with childExitCode := s₂.m.r8l .eax } :: tl
      childExitPending := true } := by
    unfold int21_4C
    rw [hps]
  have hstack : (int21_4C s₂.m).processStack = { ps with childExitCode := s₂.m.r8l .eax } :: tl := by rw [hexit]
  have hsame : (∀ s, AllocatedSeg (int21_4C s₂.m) s ↔ AllocatedSeg s₂.m s) ∧
      mcbBlocks (int21_4C s₂.m) = mcbBlocks s₂.m ∧ (int21_4C s₂.m).mem = s₂.m.mem ∧
      SameTables s₂.m (int21_4C s₂.m) := by
    rw [hexit]
    exact ⟨fun _ => Iff.rfl, rfl, rfl, ⟨rfl, rfl, rfl, rfl⟩⟩
  obtain ⟨hseg, hsets, hmem, htables⟩ := hsame
  have henv₀ : ps.childEnvSeg ≠ 0 := by
    obtain ⟨-, _, _, _, -, -, hq⟩ := henv
    rw [hq]
    exact Nat.succ_ne_zero _
  have hblocks : ∀ p, p ∈ mcbBlocks (execEnd eng saved (int21_4C s₂.m)).1 ↔ p ∈ mcbBlocks (int21_4C s₂.m) ∧
      p.1 + 1 ≠ ps.childDataSeg ∧ p.1 + 1 ≠ ps.childEnvSeg := by
    have hend := @execEnd_blocks eng saved _ _ _ hstack ((hseg _).mpr hpsp) ((hseg _).mpr henv) hne
    exact hend fun bs hc => hflags bs (hmem ▸ hc)
  have htab : SameTables s₂.m (execEnd eng saved (int21_4C s₂.m)).1 := htables.trans (execEnd_tables hstack henv₀)
  rw [hsets] at hblocks
  constructor
  · intro h
    refine ⟨fun p => (hblocks p).symm.trans (h.blocks p), fun e => ?_, fun i => ?_, fun k => ?_⟩
    · rw [← htab.busy]
      exact h.above e
    · rw [← htab.slots]
      exact h.slots i
    · rw [← htab.files]
      exact h.files k
  · intro h
    refine ⟨fun p => (hblocks p).trans (h.blocks p), fun e => ?_, fun i => ?_, fun k => ?_⟩
    · exact htab.busy ▸ h.above e
    · exact htab.slots ▸ h.slots i
    · exact (htab.files k).trans (h.files k)

/-- A child of `served` that has taken nothing beside its two blocks of a paragraph each. -/
def childRunning : Machine :=
  { ((mcbAllocate served 1).bind fun a => (mcbAllocate a.1 1).map (·.1)).getD served with
    processStack := [processState served 0x3002 0x3004] }

/-- What has been allocated since `served` are the child's two blocks. -/
theorem childRunning_blocks : AllocatedSeg childRunning 0x3002 ∧ AllocatedSeg childRunning 0x3004 ∧
    GivenBack (processState served 0x3002 0x3004) served childRunning := by
  have hpsp : (mcbAllocate served 1).map (·.2.1) = some 0x3002 := by decide +kernel
  have henv : ((mcbAllocate served 1).bind fun a => mcbAllocate a.1 1).map (·.2.1) = some 0x3004 := by
    decide +kernel
  have hinit : served.mcbInitialised = true := by decide +kernel
  unfold childRunning
  rcases hfirst : mcbAllocate served 1 with _ | ⟨m₁, s, l⟩
  · rw [hfirst] at hpsp
    cases hpsp
  · rw [hfirst] at hpsp henv
    obtain rfl : s = 0x3002 := Option.some.inj hpsp
    dsimp only [Option.bind_some] at henv ⊢
    rcases hsecond : mcbAllocate m₁ 1 with _ | ⟨m₂, t, l'⟩
    · rw [hsecond] at henv
      cases henv
    · rw [hsecond] at henv
      obtain rfl : t = 0x3004 := Option.some.inj henv
      obtain ⟨⟨bs₁, b, h₁, -⟩, heq₁⟩ := mcbAllocate_taken hinit chain_asked hfirst (by decide)
      obtain ⟨⟨bs₂, c, h₂, -⟩, heq₂⟩ := mcbAllocate_taken h₁.init h₁.chain hsecond (by decide)
      refine ⟨⟨h₂.init, bs₂, 0x3001, b, h₂.chain, (h₂.allocated _ _).mpr (Or.inl h₁.block), rfl⟩,
        ⟨h₂.init, bs₂, 0x3003, c, h₂.chain, h₂.block, rfl⟩, fun p => ?_, fun e => ?_, fun i => ?_, fun h => ?_⟩
      · refine (and_congr_left' (mcbBlocks_of_chain h₂.init h₂.chain p)).trans ?_
        rw [mcbBlocks_of_chain hinit chain_asked, h₂.allocated, h₁.allocated]
        -- the places of the two blocks were free
        constructor
        · rintro ⟨(hold | ⟨hq, -⟩) | ⟨hq, -⟩, hfirst, hsecond⟩
          · exact hold
          · exact absurd (congrArg (· + 1) hq) hfirst
          · exact absurd (congrArg (· + 1) hq) hsecond
        · intro hold
          refine ⟨Or.inl (Or.inl hold), fun hq => h₁.fresh p.2 ?_, fun hq => ?_⟩
          · have hplace : p.1 = 0x3002 - 1 := Nat.succ_injective hq
            rwa [hplace] at hold
          · have hplace : p.1 = 0x3004 - 1 := Nat.succ_injective hq
            rw [hplace] at hold
            exact h₂.fresh p.2 ((h₁.allocated _ _).mpr (Or.inl hold))
      · rw [heq₂, heq₁]
        rfl
      · rw [heq₂, heq₁]
        rfl
      · rw [heq₂, heq₁]
        rfl

/-- At its end `served` has back what it had, and no more. -/
theorem childResources_running : ∃ s₃ s₄,
    step tableEngine ⟨childRunning, [.exec (saveExec served)], false⟩ .exit s₃ ∧
      step tableEngine s₃ .unwind s₄ ∧ SameResources served s₄.m := by
  have hflags : flagsAddr (execEnd tableEngine (saveExec served) (int21_4C childRunning)).1 <
      MCB_ARENA_START * 16 := by decide +kernel
  obtain ⟨hpsp, henv, hback⟩ := childRunning_blocks
  have h₃ : step tableEngine ⟨childRunning, [.exec (saveExec served)], false⟩ .exit
      ⟨int21_4C childRunning, [.exec (saveExec served)], true⟩ := ⟨rfl, List.cons_ne_nil _ _, rfl⟩
  refine ⟨_, _, h₃, ⟨_, _, rfl, rfl, rfl⟩, ?_⟩
  exact (childResources_iff served rfl rfl hpsp henv (by decide) h₃ ⟨_, _, rfl, rfl, rfl⟩
    fun bs hc => headerBytes_inside hc (Or.inl hflags)).mpr hback

/-- A child that duplicates handle 0 and does not close the copy: its parent has a handle more. -/
theorem duplicate_survives : ∃ s₁ s₂ s₃ s₄,
    step tableEngine ⟨bootMachine, [], false⟩ (.exec tinyHost) s₁ ∧
      step tableEngine s₁ (.files (.dup (some 7))) s₂ ∧ step tableEngine s₂ .exit s₃ ∧
      step tableEngine s₃ .unwind s₄ ∧ s₄.levels = [] ∧ ¬SameResources bootMachine s₄.m := by
  have hrun : ((int21_4B tableEngine tinyHost bootMachine).bind fun r => r.2.map fun saved =>
      fileOf (execEnd tableEngine saved (int21_4C (setCf ((FileCall.dup (some 7)).serve r.1).1
        ((FileCall.dup (some 7)).serve r.1).2))).1 5) = some (some 0) := by decide +kernel
  obtain ⟨⟨m', r⟩, hexec, hr⟩ := Option.bind_eq_some_iff.mp hrun
  obtain ⟨saved, rfl, hfile⟩ := Option.map_eq_some_iff.mp hr
  have hstack : m'.processStack ≠ [] := by
    obtain ⟨hnone, -⟩ | ⟨m₁, psp, env, regs, -, -, rfl⟩ := int21_4B_cases hexec
    · cases hnone
    · rw [startChild_processStack]
      exact List.cons_ne_nil _ _
  have hcall : (setCf ((FileCall.dup (some 7)).serve m').1 ((FileCall.dup (some 7)).serve m').2).processStack ≠
      [] := by
    rw [(sameGlobals_setCf _ _).processStack, fileCall_processStack]
    exact hstack
  refine ⟨_, _, _, _, ⟨m', some saved, rfl, hexec, rfl⟩, ⟨rfl, rfl⟩, ⟨rfl, hcall, rfl⟩, ⟨_, _, rfl, rfl, rfl⟩,
    rfl, fun h => ?_⟩
  have hnone : fileOf bootMachine 5 = none := rfl
  have hsame := (h.files 5).symm.trans hfile
  rw [hnone] at hsame
  cases hsame

end Dosiz.ChildResources
