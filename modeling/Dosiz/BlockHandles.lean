/-
  Dosiz/BlockHandles.lean
  =======================
  **What AX=0502 takes for a handle.**

  AX=0501 answers a handle SI:DI, and AX=0502 is to accept the handles that were answered and not
  freed since, and nothing else.  Above 1 MB it does: the handle is looked up among the blocks.
  With SI = 0 it only looks for a header letter in front of the segment DI, so that it frees the
  blocks of AH=48 and AX=0100, and what is freed already, as well (`freesHandle_iff`).
-/
import Dosiz.DpmiBlocks
import Dosiz.Fragments

namespace Dosiz

open ByteMemory BlockChain Machine Mcb PmArena Extents Transition

/-! ### The blocks a call keeps -/

/-- A block above 1 MB starts at `h`. -/
def PmBase (m : Machine) (h : Nat) : Prop := ∃ e ∈ m.pmBusy, e.base = h

/-- `m'` has the blocks `m` has, and above 1 MB no other. -/
structure Holds (m m' : Machine) : Prop where
  ok : MemOk m'
  dos : ∀ s, AllocatedSeg m s → AllocatedSeg m' s
  pm : ∀ h, PmBase m' h ↔ PmBase m h

section Keeps

variable {m m' m'' : Machine}

theorem Holds.refl (h : MemOk m) : Holds m m := ⟨h, fun _ hs => hs, fun _ => Iff.rfl⟩

theorem Holds.trans (h₁ : Holds m m') (h₂ : Holds m' m'') : Holds m m'' :=
  ⟨h₂.ok, fun s hs => h₂.dos s (h₁.dos s hs), fun h => (h₂.pm h).trans (h₁.pm h)⟩

/-- Outside the two arenas and the registers nothing matters. -/
theorem Holds.same (h : MemOk m) (hs : SameArena m m') : Holds m m' where
  ok := ((Preserves.refl h).same hs).1
  dos := by
    rintro s ⟨hi, bs, q, b, hc, ha, hq⟩
    exact ⟨hs.init.trans hi, bs, q, b, hs.chain hc, ha, hq⟩
  pm a := by
    rw [PmBase, PmBase, hs.busy]

theorem Holds.regs (h : Holds m m') (rs : List (Reg × Nat)) : Holds m (m'.setR16s rs) :=
  h.trans (.same h.ok (sameArena_of_sameHost (sameHost_setR16s m' rs)))

theorem Holds.fail (h : Holds m m') (code : Nat) : Holds m (failWith m' code).1 :=
  h.trans (.same h.ok (sameArena_of_sameHost (sameHost_setR16 m' .eax code)))

theorem mcbReady_busy (m : Machine) : (mcbReady m).pmBusy = m.pmBusy := by
  unfold mcbReady
  split_ifs <;> rfl

/-- `mcb_allocate` keeps every block, and the one it gives was none before. -/
theorem mcbAllocate_holds (hm : MemOk m) (need : Nat) :
    ∃ m' seg largest, mcbAllocate m need = some (m', seg, largest) ∧ Holds m m' ∧
      (seg ≠ 0 → AllocatedSeg m' seg ∧ ¬ AllocatedSeg m seg ∧ seg + need ≤ MCB_ARENA_END) := by
  obtain ⟨mem, seg, largest, bs', halloc, hc', hk, hnew⟩ := mcbAllocate_spec hm need
  obtain ⟨m', seg', largest', halloc', hp, hi'⟩ := mcbAllocate_preserves hm need
  obtain ⟨rfl, rfl, rfl⟩ : m' = { mcbReady m with mem := mem } ∧ seg' = seg ∧ largest' = largest := by
    simpa using halloc'.symm.trans halloc
  refine ⟨_, _, _, halloc, ⟨hp.1, ?_, ?_⟩, fun hseg => ?_⟩
  · rintro s ⟨hi, bs, q, b, hc, ha, hq⟩
    exact ⟨hi', bs', q, b, hc', (hk bs hi hc).2.1 q b ha, hq⟩
  · intro h
    rw [PmBase, PmBase, ← mcbReady_busy m]
  · obtain ⟨b, hb, hneed, hlow, -, -⟩ := hnew hseg
    have hbound := place_bounds hb.1
    have htiles := hc'.tiles
    refine ⟨⟨hi', bs', seg' - 1, b, hc', hb, by omega⟩, ?_, by omega⟩
    rintro ⟨hi, bs, q, c, hc, ha, hq⟩
    have hready : Chain (mcbReady m).mem bs := by
      rw [mcbReady_of_init hi]
      exact hc
    rcases mcbAllocate_firstFit hready need with
      ⟨pre, b', post, mem', largest'', rfl, hfree, -, -, hgot, -⟩ | ⟨hgot, -⟩
    · -- the block it takes is free
      rw [halloc, Option.some.injEq, Prod.mk.injEq, Prod.mk.injEq] at hgot
      have hq' : q = MCB_ARENA_START + span pre := by omega
      subst hq'
      have hsame := place_inj ha.1 (mem_place_mid pre post b')
      rw [hsame] at ha
      exact ha.2 hfree
    · rw [halloc, Option.some.injEq, Prod.mk.injEq, Prod.mk.injEq] at hgot
      exact hseg hgot.2.1

/-- `mcb_free` of a block keeps every other one. -/
theorem mcbFree_keeps (hm : MemOk m) {s : Nat} (hs : AllocatedSeg m s) :
    (mcbFree m s).2 = true ∧ MemOk (mcbFree m s).1 ∧
      (∀ t, t ≠ s → AllocatedSeg m t → AllocatedSeg (mcbFree m s).1 t) ∧
      (mcbFree m s).1.pmBusy = m.pmBusy := by
  obtain ⟨hp, hok⟩ := mcbFree_preserves hm hs
  obtain ⟨mem, bs', hfree, hc', hk⟩ := mcbFree_spec hs
  refine ⟨hok, hp.1, ?_, ?_⟩
  · rintro t hne ⟨hi, bs, q, b, hc, ha, rfl⟩
    rw [hfree]
    have hbound := hs.bounds
    exact ⟨hi, bs', q, b, hc', ((hk bs hc).2 q b).mpr ⟨ha, by omega⟩, rfl⟩
  · rw [hfree]

/-- `mcb_resize` of a block of the chain, allocated or free, keeps the others as they are. -/
theorem allocated_resize_other {pre post : List (Block Nat)} {b c : Block Nat} {q : Nat} (n : Nat)
    (ha : Allocated (pre ++ b :: post) q c) (hq : q ≠ MCB_ARENA_START + span pre) :
    Allocated (pre ++ resize 0 n b post) q c := by
  rcases resize_cases 0 n b post with ⟨hr, -⟩ | ⟨d, post, rfl, hd, -, hr, -⟩
  · rw [hr, ← List.append_assoc, allocated_stretch pre [b] (carve 0 n b) post (by simp)
      (by rw [span_carve]; simp) (headOnly_single _ _)]
    exact Or.inl ⟨by simpa using ha, hq⟩
  · rw [hr, ← List.append_assoc, allocated_stretch pre [b, d] (carve 0 n (join b d)) post
      (by simp only [span_cons]; omega)
      (by rw [span_carve]; simp only [join, span_cons, span_nil]; omega) (headOnly_pair _ _ hd)]
    exact Or.inl ⟨by simpa using ha, hq⟩

/-- An allocated one among them, the block itself included, stays allocated. -/
theorem allocated_resize_keeps {pre post : List (Block Nat)} {b c : Block Nat} {q : Nat} (n : Nat)
    (ha : Allocated (pre ++ b :: post) q c) : ∃ d, Allocated (pre ++ resize 0 n b post) q d := by
  by_cases hq : q = MCB_ARENA_START + span pre
  · subst hq
    have hb : b.tag ≠ 0 := place_inj ha.1 (mem_place_mid pre post b) ▸ ha.2
    obtain ⟨n', -, -, hall⟩ := @allocated_resize pre post b n hb
    exact ⟨_, (hall _ _).mpr (Or.inr ⟨rfl, rfl⟩)⟩
  · exact ⟨c, allocated_resize_other n ha hq⟩

theorem mcbResize_holds (hm : MemOk m) {s : Nat} {bs : List (Block Nat)} {b : Block Nat}
    (hb : BlockSeg m s bs b) (n : Nat) : Holds m (mcbResize m s n).1 := by
  obtain ⟨pre, post, rfl, rfl⟩ := hb.split
  unfold mcbResize
  split_ifs with hi
  · have hc := hb.1
    obtain ⟨hc', -⟩ := mcbResizeIn_chain hc n
    refine ⟨⟨⟨hm.pm.packed, hm.pm.high, hm.pm.fresh⟩, fun _ => ⟨_, hc'⟩⟩, ?_, fun _ => Iff.rfl⟩
    rintro t ⟨-, bs, q, c, hc₂, ha, hq⟩
    obtain rfl := hc₂.unique hc
    obtain ⟨d, hd⟩ := allocated_resize_keeps n ha
    exact ⟨hi, _, q, d, hc', hd, hq⟩
  · exact Holds.refl hm

/-- `pm_resize` moves no block. -/
theorem pmResize_bases (m : Machine) (base n h : Nat) :
    PmBase (pmResize m base n).1 h ↔ PmBase m h := by
  have hinit : PmBase (pmInit m) h ↔ PmBase m h := by
    rw [PmBase, PmBase, pmInit_busy]
  rw [← hinit]
  unfold pmResize
  dsimp only
  by_cases h₁ : n = 0
  · rw [if_pos h₁]
  by_cases h₂ : pmRoundUp n < n
  · rw [if_neg h₁, if_pos h₂]
  rw [if_neg h₁, if_neg h₂]
  cases hfind : pmFind base (pmInit m).pmBusy with
  | none => exact Iff.rfl
  | some found =>
    obtain ⟨pre, me, post⟩ := found
    obtain ⟨hbusy, -⟩ := pmFind_eq_some hfind
    have hmoved : PmBase { pmInit m with
        pmBusy := pre ++ ⟨me.base, pmRoundUp n⟩ :: post } h ↔ PmBase (pmInit m) h := by
      rw [PmBase, PmBase, hbusy]
      simp [or_and_right, exists_or]
    dsimp only
    split_ifs
    · exact hmoved
    · exact Iff.rfl
    · exact Iff.rfl
    · exact hmoved

end Keeps

/-! ### The calls -/

section Calls

variable {m : Machine} {live : List Nat}

theorem int21_48_holds (hm : MemOk m) : ∃ r, int21_48 m = some r ∧ Holds m r.1 := by
  obtain ⟨m', seg, largest, halloc, hh, -⟩ := mcbAllocate_holds hm m.bx
  unfold int21_48
  rw [halloc]
  dsimp only
  split_ifs
  · exact ⟨_, rfl, hh.regs _⟩
  · exact ⟨_, rfl, hh.trans (.same hh.ok (sameArena_of_sameHost (sameHost_setR16 _ _ _)))⟩

theorem int31_0100_holds (hm : MemOk m) : ∃ r, int31_0100 m = some r ∧ Holds m r.1 := by
  unfold int31_0100
  by_cases h₀ : m.bx = 0
  · rw [if_pos h₀]
    exact ⟨_, rfl, (Holds.refl hm).fail _⟩
  rw [if_neg h₀]
  obtain ⟨m', seg, largest, halloc, hh, hnew⟩ := mcbAllocate_holds hm m.bx
  rw [halloc]
  dsimp only
  by_cases hseg : seg = 0
  · rw [if_pos hseg]
    exact ⟨_, rfl, hh.regs _⟩
  rw [if_neg hseg]
  obtain ⟨hs, hfresh, -⟩ := hnew hseg
  split_ifs
  · -- the LDT is full: the block just allocated is freed again
    obtain ⟨-, hok, hdos, hbusy⟩ := mcbFree_keeps hh.ok hs
    refine ⟨_, rfl, Holds.fail ⟨hok, fun t ht => hdos t ?_ (hh.dos t ht), fun h => ?_⟩ _⟩
    · rintro rfl
      exact hfresh ht
    · rw [← hh.pm h, PmBase, PmBase, hbusy]
  · refine ⟨_, rfl, Holds.regs (hh.trans (.same hh.ok ?_)) _⟩
    exact ⟨rfl, rfl, rfl, rfl, (writeLdtDescriptor_off _ _ _ _ _ _).mono (ldt_outside _ 8)⟩

/-- AX=0503 with SI = 0 is refused, or made on a block of the chain; above 1 MB the new end of the
    block is below 2^32. -/
def ResizesBlock (m : Machine) : Prop :=
  if m.si = 0 then m.di < MCB_ARENA_START ∨ MCB_ARENA_END ≤ m.di ∨ NoHeader m m.di ∨
    ∃ bs b, BlockSeg m m.di bs b
  else PmBase m (handleArg m) → handleArg m + pmRoundUp (sizeArg m) < 4294967296

theorem pmResize_holds (hm : MemOk m)
    (h : PmBase m (handleArg m) → handleArg m + pmRoundUp (sizeArg m) < 4294967296) :
    Holds m (pmResize m (handleArg m) (sizeArg m)).1 := by
  obtain ⟨busy, hframe⟩ := pmResize_frame m (handleArg m) (sizeArg m)
  have hmem : (pmResize m (handleArg m) (sizeArg m)).1.mem = m.mem := by
    rw [hframe]
    exact pmInit_mem m
  have hinit : (pmResize m (handleArg m) (sizeArg m)).1.mcbInitialised = m.mcbInitialised := by
    rw [hframe]
    unfold pmInit
    split_ifs <;> rfl
  have hok : PmOk (pmResize m (handleArg m) (sizeArg m)).1 := by
    by_cases hbase : PmBase m (handleArg m)
    · exact (pmResize_packed hm.pm (sizeArg_lt m) (h hbase)).1
    · have hnone : pmFind (handleArg m) (pmInit m).pmBusy = none := by
        cases hfind : pmFind (handleArg m) (pmInit m).pmBusy with
        | none => rfl
        | some found =>
          obtain ⟨pre, me, post⟩ := found
          obtain ⟨hbusy, hme⟩ := pmFind_eq_some hfind
          rw [pmInit_busy] at hbusy
          exact absurd ⟨me, by rw [hbusy]; simp, hme⟩ hbase
      have hsame : (pmResize m (handleArg m) (sizeArg m)).1 = pmInit m := by
        unfold pmResize
        simp only [hnone]
        split_ifs <;> rfl
      rw [hsame]
      exact pmInit_ok hm.pm
  refine ⟨⟨hok, fun hi => ?_⟩, ?_, pmResize_bases m _ _⟩
  · rw [hmem]
    exact hm.chain (hinit ▸ hi)
  · rintro s ⟨hi, bs, q, b, hc, ha, hq⟩
    exact ⟨hinit.trans hi, bs, q, b, hmem ▸ hc, ha, hq⟩

theorem int31_0503_holds (hm : MemOk m) (h : ResizesBlock m) :
    ∃ r, int31_0503 m = some r ∧ Holds m r.1 := by
  unfold ResizesBlock at h
  unfold int31_0503
  dsimp only
  by_cases h₀ : sizeArg m = 0
  · rw [if_pos h₀]
    exact ⟨_, rfl, (Holds.refl hm).fail _⟩
  rw [if_neg h₀]
  by_cases hsi : m.si = 0
  · rw [if_pos hsi] at h ⊢
    by_cases hdi : m.di < MCB_ARENA_START ∨ MCB_ARENA_END ≤ m.di
    · rw [if_pos hdi]
      exact ⟨_, rfl, (Holds.refl hm).fail _⟩
    rw [if_neg hdi]
    have hh : Holds m (mcbResize m m.di (bytesToParas (sizeArg m))).1 := by
      rcases h with h | h | h | ⟨bs, b, h⟩
      · exact absurd (Or.inl h) hdi
      · exact absurd (Or.inr h) hdi
      · rw [mcbResize_noHeader h]
        exact Holds.refl hm
      · exact mcbResize_holds hm h _
    split_ifs
    · exact ⟨_, rfl, (Holds.refl hm).fail _⟩
    · exact ⟨_, rfl, hh.fail _⟩
    · exact ⟨_, rfl, hh.regs _⟩
  · rw [if_neg hsi] at h ⊢
    have hh := pmResize_holds hm h
    split_ifs
    · exact ⟨_, rfl, hh.regs _⟩
    · exact ⟨_, rfl, hh.fail _⟩

/-- The live handles name blocks: below 65536 blocks of the chain, above exactly the blocks there. -/
structure HandlesHeld (m : Machine) (live : List Nat) : Prop where
  ok : MemOk m
  dos : ∀ h ∈ live, h < 65536 → AllocatedSeg m h ∧ h < MCB_ARENA_END
  pm : ∀ h, 65536 ≤ h → (h ∈ live ↔ PmBase m h)

theorem HandlesHeld.holds {m' : Machine} (hh : HandlesHeld m live) (h : Holds m m') :
    HandlesHeld m' live where
  ok := h.ok
  dos a ha hlt := ⟨h.dos a (hh.dos a ha hlt).1, (hh.dos a ha hlt).2⟩
  pm a hge := (hh.pm a hge).trans (h.pm a).symm

/-- AX=0501 adds the handle it answers. -/
theorem int31_0501_held (hh : HandlesHeld m live) : ∃ r, int31_0501 m = some r ∧
    HandlesHeld r.1 (if r.2 then live else handleArg r.1 :: live) := by
  have hm := hh.ok
  unfold int31_0501
  dsimp only
  by_cases h₀ : sizeArg m = 0
  · rw [if_pos h₀]
    exact ⟨_, rfl, hh.holds ((Holds.refl hm).fail _)⟩
  rw [if_neg h₀]
  obtain ⟨hp, hmem, hinit⟩ := pmAlloc_preserves hm (sizeArg_lt m)
  obtain ⟨-, hcase⟩ := pmAlloc_spec hm.pm (sizeArg_lt m)
  have hdos : ∀ s, AllocatedSeg m s → AllocatedSeg (pmAlloc m (sizeArg m)).1 s := by
    rintro s ⟨hi, bs, q, b, hc, ha, hq⟩
    have hoff : AgreesOff outsideArena m.mem (pmAlloc m (sizeArg m)).1.mem := by
      rcases hcase with ⟨-, -, hsame⟩ | ⟨e, -, -, -, -, hfit, hoff⟩
      · rw [hsame]
        exact AgreesOff.refl _ _
      · refine hoff.mono fun x hx => ?_
        have h₁ := hfit.low
        have h₂ := hx.1
        simp only [PM_ARENA_START] at h₁
        simp only [outsideArena, MCB_ARENA_START, MCB_ARENA_END, Set.mem_ofPred_eq]
        omega
    exact ⟨hinit.trans hi, bs, q, b, hc.frame hoff fun _ hx => headerBytes_inside hc hx, ha, hq⟩
  have hnone : (pmAlloc m (sizeArg m)).2 = 0 → Holds m (pmAlloc m (sizeArg m)).1 := by
    intro hz
    refine ⟨hp.1, hdos, fun h => ?_⟩
    rcases hcase with ⟨-, hperm, -⟩ | ⟨e, he, -, -, -, hfit, -⟩
    · simp only [PmBase, hperm.mem_iff]
    · have := hfit.low
      simp only [PM_ARENA_START] at this
      omega
  by_cases hlin : (pmAlloc m (sizeArg m)).2 ≠ 0
  · -- a block above 1 MB
    rw [if_pos hlin]
    refine ⟨_, rfl, ?_⟩
    rcases hcase with ⟨hz, -, -⟩ | ⟨e, hbase, -, -, hperm, hfit, -⟩
    · exact absurd hz hlin
    have hlow := hfit.low
    have hpos := hfit.high
    have hend := hp.1.pm.high
    simp only [PM_ARENA_START] at hlow
    simp only [Extent.stop] at hpos
    rw [if_neg Bool.false_ne_true, hbase]
    generalize hrs : [(Reg.ebx, e.base / 65536), (Reg.ecx, e.base), (Reg.esi, e.base / 65536),
      (Reg.edi, e.base)] = rs
    have hhandle : handleArg ((pmAlloc m (sizeArg m)).1.setR16s rs) = e.base := by
      subst hrs
      simp only [handleArg, setR16s, List.foldl, si, di, r16_setR16, ne_eq, reduceCtorEq,
        not_false_eq_true, r16_setR16_of_ne]
      omega
    have hregs := (Holds.refl hp.1).regs rs
    rw [hhandle]
    refine ⟨hregs.ok, fun h hmem hlt => ?_, fun h hge => ?_⟩
    · rcases List.mem_cons.mp hmem with rfl | hmem
      · omega
      · exact ⟨hregs.dos h (hdos h (hh.dos h hmem hlt).1), (hh.dos h hmem hlt).2⟩
    · rw [List.mem_cons, hh.pm h hge, hregs.pm h]
      simp only [PmBase, hperm.mem_iff, List.mem_append, List.mem_singleton, or_and_right, exists_or,
        exists_eq_left]
      rw [or_comm, eq_comm]
  rw [if_neg hlin]
  have hz : (pmAlloc m (sizeArg m)).2 = 0 := not_not.mp hlin
  have hfirst := hnone hz
  split_ifs with hparas
  · -- a block of the chain
    obtain ⟨m', seg, largest, halloc, hsecond, hnew⟩ := mcbAllocate_holds hfirst.ok
      (bytesToParas (sizeArg m))
    rw [halloc]
    dsimp only
    by_cases hseg : seg = 0
    · rw [if_neg (not_not.mpr hseg)]
      exact ⟨_, rfl, hh.holds ((hfirst.trans hsecond).fail _)⟩
    · rw [if_pos hseg]
      refine ⟨_, rfl, ?_⟩
      obtain ⟨hs, -, hend⟩ := hnew hseg
      rw [if_neg Bool.false_ne_true]
      generalize hrs : [(Reg.ebx, seg * 16 / 65536), (Reg.ecx, seg * 16), (Reg.esi, 0), (Reg.edi, seg)] = rs
      have hlt : seg < MCB_ARENA_END := by omega
      have hhandle : handleArg (m'.setR16s rs) = seg := by
        subst hrs
        simp only [MCB_ARENA_END] at hlt
        simp only [handleArg, setR16s, List.foldl, si, di, r16_setR16, ne_eq, reduceCtorEq,
          not_false_eq_true, r16_setR16_of_ne]
        omega
      have hall := (hfirst.trans hsecond).regs rs
      have hkept := hh.holds hall
      rw [hhandle]
      refine ⟨hall.ok, fun h hmem hsmall => ?_, fun h hge => ?_⟩
      · rcases List.mem_cons.mp hmem with rfl | hmem
        · exact ⟨((Holds.refl hsecond.ok).regs rs).dos _ hs, hlt⟩
        · exact hkept.dos h hmem hsmall
      · simp only [MCB_ARENA_END] at hlt
        rw [List.mem_cons, ← hkept.pm h hge]
        exact or_iff_right (by omega)
  · exact ⟨_, rfl, hh.holds (hfirst.fail _)⟩

theorem si_eq_zero_iff (m : Machine) : m.si = 0 ↔ handleArg m < 65536 := by
  have hdi : m.di < 65536 := r16_lt m .edi
  unfold handleArg
  omega

theorem handleArg_of_si (h : m.si = 0) : handleArg m = m.di := by
  rw [handleArg, h, Nat.zero_mul, Nat.zero_add]

/-- A live handle is accepted, and is live no more. -/
theorem int31_0502_live (hh : HandlesHeld m live) (hlive : handleArg m ∈ live) :
    ∃ r, int31_0502 m = some (r, false) ∧ HandlesHeld r (live.filter (· ≠ handleArg m)) := by
  have hm := hh.ok
  unfold int31_0502
  by_cases hsi : m.si = 0
  · have hlt := (si_eq_zero_iff m).mp hsi
    obtain ⟨hs, hend⟩ := hh.dos _ hlive hlt
    rw [handleArg_of_si hsi] at hs hend ⊢
    obtain ⟨hok, hfreed, hdos, hbusy⟩ := mcbFree_keeps hm hs
    have hbound := hs.bounds
    rw [if_pos hsi, if_neg (by omega)]
    dsimp only
    rw [if_pos hok]
    refine ⟨_, rfl, hfreed, fun h hmem hsmall => ?_, fun h hge => ?_⟩
    · obtain ⟨hin, hne⟩ := List.mem_filter.mp hmem
      exact ⟨hdos h (by simpa using hne) (hh.dos h hin hsmall).1, (hh.dos h hin hsmall).2⟩
    · have hne : h ≠ m.di := by
        simp only [MCB_ARENA_END] at hend
        omega
      rw [List.mem_filter, hh.pm h hge, PmBase, PmBase, hbusy]
      exact and_iff_left (decide_eq_true hne)
  · have hge : 65536 ≤ handleArg m := Nat.le_of_not_lt fun h => hsi ((si_eq_zero_iff m).mpr h)
    obtain ⟨e, he, hbase⟩ := (hh.pm _ hge).mp hlive
    have hfound : (pmFree m (handleArg m)).2 = true :=
      List.any_eq_true.mpr ⟨e, he, decide_eq_true hbase⟩
    rw [if_neg hsi]
    dsimp only
    rw [if_pos hfound]
    refine ⟨_, rfl, ⟨pmFree_ok hm.pm _, hm.chain⟩, fun h hmem hsmall => ?_, fun h hbig => ?_⟩
    · exact hh.dos h (List.mem_filter.mp hmem).1 hsmall
    · rw [List.mem_filter, hh.pm h hbig]
      constructor
      · rintro ⟨⟨f, hf, rfl⟩, hne⟩
        refine ⟨f, ?_, rfl⟩
        exact (List.mem_eraseP_of_neg (by simpa using hne)).mpr hf
      · rintro ⟨f, hf, rfl⟩
        have hne := pmFree_gone hm.pm (handleArg m) f hf
        exact ⟨⟨f, List.mem_of_mem_eraseP hf, rfl⟩, decide_eq_true hne⟩

/-- AX=0502 looks at nothing but the range of DI and the header letter before it. -/
def HeaderBefore (m : Machine) : Prop :=
  MCB_ARENA_START ≤ m.di ∧ m.di < MCB_ARENA_END ∧ ¬ NoHeader m m.di

/-- The handle is one AX=0502 decides rightly: it is above 1 MB, or live, or nothing stands there. -/
def DecidedHandle (m : Machine) (live : List Nat) : Prop :=
  m.si ≠ 0 ∨ handleArg m ∈ live ∨ ¬ HeaderBefore m

/-- What is not live, and looks like no block, is refused. -/
theorem int31_0502_refused (hh : HandlesHeld m live) (hdead : handleArg m ∉ live)
    (h : m.si ≠ 0 ∨ ¬ HeaderBefore m) : int31_0502 m = some (failWith m 0x8023) := by
  unfold int31_0502
  by_cases hsi : m.si = 0
  · rw [if_pos hsi]
    split_ifs with hdi
    · rfl
    · have hno : NoHeader m m.di := by
        by_contra hhead
        exact h.resolve_left (not_not.mpr hsi) ⟨by omega, by omega, hhead⟩
      dsimp only
      rw [mcbFree_noHeader hno]
      rfl
  · have hge : 65536 ≤ handleArg m := Nat.le_of_not_lt fun h => hsi ((si_eq_zero_iff m).mpr h)
    have hnone : ∀ e ∈ m.pmBusy, e.base ≠ handleArg m := fun e he hb =>
      hdead ((hh.pm _ hge).mpr ⟨e, he, hb⟩)
    have hfree : pmFree m (handleArg m) = (m, false) := by
      have herase : m.pmBusy.eraseP (fun b => b.base = handleArg m) = m.pmBusy :=
        List.eraseP_of_forall_not fun e he => by simpa using hnone e he
      have hany : m.pmBusy.any (fun b => b.base = handleArg m) = false :=
        List.any_eq_false.mpr fun e he => by simpa using hnone e he
      rw [pmFree, herase, hany]
    rw [if_neg hsi]
    dsimp only
    rw [hfree]
    rfl

/-- What has a header letter before it is accepted, live or not. -/
theorem int31_0502_accepts (hsi : m.si = 0) (h : HeaderBefore m) :
    ∃ r, int31_0502 m = some (r, false) := by
  obtain ⟨hlow, hhigh, hhead⟩ := h
  have hin : (mcbFree m m.di).2 = true := by
    rw [NoHeader, not_or, Bool.not_eq_false] at hhead
    rw [mcbFree, if_pos hhead.1]
    unfold mcbFreeIn
    dsimp only
    rw [if_neg hhead.2]
    split_ifs <;> rfl
  unfold int31_0502
  rw [if_pos hsi, if_neg (by omega)]
  dsimp only
  rw [if_pos hin]
  exact ⟨_, rfl⟩

end Calls

/-! ### Runs -/

/-- The handles that are live after a call. -/
def handlesAfter (m : Machine) (r : Machine × Bool) (live : List Nat) : MemCall → List Nat
  | .ax0501 => if r.2 then live else handleArg r.1 :: live
  | .ax0502 => if r.2 then live else live.filter (· ≠ handleArg m)
  | _ => live

/-- A step, with the handles AX=0501 answered and AX=0502 has not freed since. -/
def handleStep (s : Machine × List Nat) : ArenaEvent → Machine × List Nat → Prop
  | .guest cpu mem, t => t = ({ s.1 with cpu := cpu, mem := mem }, s.2)
  | .call c, t => ∃ r, c.serve s.1 = some r ∧ t = (setCf r.1 r.2, handlesAfter s.1 r s.2 c)

/-- Guest code leaves the headers alone; the calls are those of the two allocators, with their FLAGS
    image off the headers; AX=0502 is made with handles it decides rightly, AX=0503 with blocks. -/
def HandleCalls (s : Machine × List Nat) : ArenaEvent → Prop
  | .guest cpu mem => ProperArgs s.1 (.guest cpu mem)
  | .call .ax0502 => FlagsClear s.1 .ax0502 ∧ DecidedHandle s.1 s.2
  | .call .ax0503 => FlagsClear s.1 .ax0503 ∧ ResizesBlock s.1
  | .call .ah48 => FlagsClear s.1 .ah48
  | .call .ax0100 => FlagsClear s.1 .ax0100
  | .call .ax0501 => FlagsClear s.1 .ax0501
  | .call _ => False

section Runs

variable {m : Machine} {live : List Nat}

theorem HandlesHeld.flagged {c : MemCall} {r : Machine × Bool} (hh : HandlesHeld r.1 live)
    (hr : c.serve m = some r) (hclear : FlagsClear m c) : HandlesHeld (setCf r.1 r.2) live where
  ok := memOk_setCf hr hclear hh.ok
  dos h hmem hlt := by
    obtain ⟨⟨hi, bs, q, b, hc, ha, hq⟩, hend⟩ := hh.dos h hmem hlt
    exact ⟨⟨hi, bs, q, b, setCf_chain hr hclear hi hc, ha, hq⟩, hend⟩
  pm := hh.pm

theorem HandlesHeld.guest (hh : HandlesHeld m live) {cpu : Cpu} {mem : Mem}
    (hg : ProperArgs m (.guest cpu mem)) : HandlesHeld { m with cpu := cpu, mem := mem } live := by
  have hchain : ∀ bs, m.mcbInitialised = true → Chain m.mem bs → Chain mem bs := by
    intro bs hi hc
    refine hc.frame (S := { x | mem x ≠ m.mem x }) (fun x hx => not_not.mp hx) fun x hx hb => ?_
    exact hx (hg hi bs hc x hb)
  refine ⟨⟨⟨hh.ok.pm.packed, hh.ok.pm.high, hh.ok.pm.fresh⟩, fun hi => ?_⟩, fun h hmem hlt => ?_, hh.pm⟩
  · obtain ⟨bs, hc⟩ := hh.ok.chain hi
    exact ⟨bs, hchain bs hi hc⟩
  · obtain ⟨⟨hi, bs, q, b, hc, ha, hq⟩, hend⟩ := hh.dos h hmem hlt
    exact ⟨⟨hi, bs, q, b, hchain bs hi hc, ha, hq⟩, hend⟩

/-- What the handler of AX=0502 leaves, when it decides rightly. -/
theorem int31_0502_held (hh : HandlesHeld m live) (h : DecidedHandle m live) :
    ∃ r, int31_0502 m = some r ∧
      HandlesHeld r.1 (if r.2 then live else live.filter (· ≠ handleArg m)) := by
  by_cases hlive : handleArg m ∈ live
  · obtain ⟨r, hr, hheld⟩ := int31_0502_live hh hlive
    exact ⟨_, hr, hheld⟩
  · have hrest : m.si ≠ 0 ∨ ¬ HeaderBefore m := h.imp_right fun h => h.resolve_left hlive
    refine ⟨_, int31_0502_refused hh hlive hrest, ?_⟩
    exact hh.holds ((Holds.refl hh.ok).fail _)

theorem handleStep_held {s t : Machine × List Nat} {e : ArenaEvent} (hh : HandlesHeld s.1 s.2)
    (hg : HandleCalls s e) (hs : handleStep s e t) : HandlesHeld t.1 t.2 := by
  obtain ⟨m, live⟩ := s
  have hcall : ∀ c, FlagsClear m c →
      (∃ r, c.serve m = some r ∧ HandlesHeld r.1 (handlesAfter m r live c)) →
      handleStep (m, live) (.call c) t → HandlesHeld t.1 t.2 := by
    rintro c hclear ⟨r, hr, hheld⟩ ⟨r', hr', rfl⟩
    obtain rfl := Option.some.inj (hr.symm.trans hr')
    exact hheld.flagged hr hclear
  cases e with
  | guest cpu mem =>
    obtain rfl := hs
    exact hh.guest hg
  | call c =>
    cases c with
    | ah48 =>
      obtain ⟨r, hr, hholds⟩ := int21_48_holds hh.ok
      exact hcall _ hg ⟨r, hr, hh.holds hholds⟩ hs
    | ax0100 =>
      obtain ⟨r, hr, hholds⟩ := int31_0100_holds hh.ok
      exact hcall _ hg ⟨r, hr, hh.holds hholds⟩ hs
    | ax0501 => exact hcall _ hg (int31_0501_held hh) hs
    | ax0502 => exact hcall _ hg.1 (int31_0502_held hh hg.2) hs
    | ax0503 =>
      obtain ⟨r, hr, hholds⟩ := int31_0503_holds hh.ok hg.2
      exact hcall _ hg.1 ⟨r, hr, hh.holds hholds⟩ hs
    | ah49 => exact hg.elim
    | ah4A => exact hg.elim
    | ax0101 => exact hg.elim
    | ax0102 => exact hg.elim

/-- AX=0502 succeeds exactly on the live handles; otherwise it answers 8023h and changes neither
    memory nor the blocks above 1 MB. -/
def FreesHandle (m : Machine) (live : List Nat) : Prop :=
  ∃ r, int31_0502 m = some r ∧ (r.2 = false ↔ handleArg m ∈ live) ∧
    (handleArg m ∉ live → r.2 = true ∧ r.1.ax = 0x8023 ∧ r.1.mem = m.mem ∧ r.1.pmBusy = m.pmBusy)

theorem freesHandle_of_held (hh : HandlesHeld m live) :
    FreesHandle m live ↔ DecidedHandle m live := by
  by_cases hlive : handleArg m ∈ live
  · obtain ⟨r, hr, -⟩ := int31_0502_live hh hlive
    refine iff_of_true ⟨_, hr, iff_of_true rfl hlive, fun hdead => absurd hlive hdead⟩ ?_
    exact Or.inr (Or.inl hlive)
  · constructor
    · rintro ⟨r, hr, hiff, -⟩
      by_contra hbad
      rw [DecidedHandle, not_or, not_or, not_not, not_not] at hbad
      obtain ⟨r', hr'⟩ := int31_0502_accepts hbad.1 hbad.2.2
      obtain rfl := Option.some.inj (hr.symm.trans hr')
      exact hlive (hiff.mp rfl)
    · intro h
      have hrest : m.si ≠ 0 ∨ ¬ HeaderBefore m := h.imp_right fun h => h.resolve_left hlive
      refine ⟨_, int31_0502_refused hh hlive hrest, iff_of_false (by simp [failWith]) hlive,
        fun _ => ⟨rfl, ?_, rfl, rfl⟩⟩
      exact r16_setR16 m .eax 0x8023

/-- **AX=0502 and the handles of AX=0501.**  In every run of AX=0501, AX=0502, AX=0503, AH=48 and
    AX=0100 from boot on whose calls of AX=0502 are decided rightly and whose calls of AX=0503 are
    made on blocks, the next AX=0502 does what it should exactly where SI is not 0, or the handle is
    live, or no header letter stands before DI. -/
theorem freesHandle_iff {es : List ArenaEvent}
    (hrun : Guarded handleStep HandleCalls (bootMachine, []) es (m, live)) :
    FreesHandle m live ↔ DecidedHandle m live := by
  have hboot : HandlesHeld bootMachine [] :=
    ⟨memOk_boot, fun h hmem => absurd hmem List.not_mem_nil, fun h _ =>
      iff_of_false List.not_mem_nil (by rintro ⟨e, he, -⟩; exact absurd he List.not_mem_nil)⟩
  exact freesHandle_of_held (hrun.invariant (P := fun s => HandlesHeld s.1 s.2)
    (fun _ _ _ h hg hs => handleStep_held h hg hs) hboot)

end Runs

/-! ### A block of AH=48 -/

/-- The program that got a block from AH=48 takes its segment for a handle. -/
def mistaken : Machine := { served with cpu := blockCpu 0 0 0 0x2001 }

theorem run_mistaken : Guarded handleStep HandleCalls (bootMachine, [])
    [.guest asking.cpu asking.mem, .call .ah48, .guest mistaken.cpu mistaken.mem] (mistaken, []) := by
  have hflags : ((MemCall.serve .ah48 asking).map fun r => flagsAddr r.1) = some 4 := by
    decide +kernel
  obtain ⟨r, hr, hserved⟩ := Option.map_eq_some_iff.mp call_served
  refine .cons (t := (asking, [])) asking_proper rfl ?_
  refine .cons (t := (served, [])) (flagsClear_of_low hflags (by decide)) ⟨r, hr, ?_⟩ ?_
  · rw [← hserved]
    rfl
  · have hkept : HandleCalls (served, []) (.guest mistaken.cpu mistaken.mem) := fun _ _ _ _ _ => rfl
    exact .cons hkept rfl (.nil _)

theorem freesHandle_iff_mistaken : FreesHandle mistaken [] ↔ DecidedHandle mistaken [] :=
  freesHandle_iff run_mistaken

/-- AX=0502 frees it. -/
theorem freesHandle_mistaken : Guarded handleStep HandleCalls (bootMachine, [])
      [.guest asking.cpu asking.mem, .call .ah48, .guest mistaken.cpu mistaken.mem] (mistaken, []) ∧
    ¬ FreesHandle mistaken [] := by
  have hfreed : (int31_0502 mistaken).map (·.2) = some false := by
    decide +kernel
  refine ⟨run_mistaken, ?_⟩
  rintro ⟨r, hr, hiff, -⟩
  rw [hr, Option.map_some, Option.some.injEq] at hfreed
  exact absurd (hiff.mp hfreed) List.not_mem_nil

end Dosiz
