/-
  Dosiz/ArenaSafety.lean
  ======================
  **The MCB chain over whole runs of memory calls.**

  A run is any interleaving of the memory services with the guest's own steps.  The
  invariant `MemOk` says that, once the chain has been set up, memory holds one, and
  that the protected-mode arena is packed.  Every service preserves it and keeps the
  bytes of every block allocated before and after (`serve_preserves`).  The one write
  that is not the allocators' is the `set_cf` each service ends in: it edits the FLAGS
  image on the caller's stack, wherever that lies.
-/
import Dosiz.Transition
import Dosiz.FlagEdit
import Dosiz.McbBlocks
import Dosiz.MemoryServices

namespace Dosiz

open ByteMemory BlockChain Machine Mcb PmArena Extents Transition

/-! ### The invariant -/

structure MemOk (m : Machine) : Prop where
  pm : PmOk m
  chain : m.mcbInitialised = true → ∃ bs, Chain m.mem bs

/-- `m'` is `m` up to what the two arenas do not look at. -/
structure SameArena (m m' : Machine) : Prop where
  init : m'.mcbInitialised = m.mcbInitialised
  busy : m'.pmBusy = m.pmBusy
  pmInit : m'.pmInitialised = m.pmInitialised
  pmEnd : m'.pmEnd = m.pmEnd
  off : AgreesOff outsideArena m.mem m'.mem

/-- Going from `m` to `m'` keeps the invariant, and the bytes of every block that is
    allocated in both. -/
def Preserves (m m' : Machine) : Prop :=
  MemOk m' ∧ ∀ bs, m.mcbInitialised = true → Chain m.mem bs →
    m'.mcbInitialised = true ∧ ∃ bs', Chain m'.mem bs' ∧ Kept bs m.mem bs' m'.mem

theorem headerBytes_inside {mem : Mem} {bs : List (Block Nat)} (h : Chain mem bs) {x : Nat}
    (hx : x ∈ outsideArena) : x ∉ headerBytes bs := by
  rintro ⟨q, b, hm, h₁, h₂⟩
  have hb := place_bounds hm
  have ht := h.tiles
  simp only [outsideArena, Set.mem_ofPred_eq] at hx
  omega

theorem sameArena_of_sameHost {m m' : Machine} (h : SameHost m m') : SameArena m m' := by
  rw [h]
  exact ⟨rfl, rfl, rfl, rfl, AgreesOff.refl _ _⟩

theorem SameArena.pmOk {m m' : Machine} (h : SameArena m m') (hp : PmOk m) : PmOk m' where
  packed := by
    rw [h.busy, h.pmEnd]
    exact hp.packed
  high := by
    rw [h.pmEnd]
    exact hp.high
  fresh hf := by
    rw [h.busy]
    exact hp.fresh (h.pmInit ▸ hf)

theorem SameArena.chain {m m' : Machine} (h : SameArena m m') {bs : List (Block Nat)}
    (hc : Chain m.mem bs) : Chain m'.mem bs :=
  hc.frame h.off fun _ hx => headerBytes_inside hc hx

theorem Preserves.refl {m : Machine} (h : MemOk m) : Preserves m m :=
  ⟨h, fun bs hi hc => ⟨hi, bs, hc, kept_of_off hc.tiles (AgreesOff.refl _ _)⟩⟩

/-- What a service does besides using an allocator does not matter. -/
theorem Preserves.same {m m' m'' : Machine} (h : Preserves m m') (hs : SameArena m' m'') :
    Preserves m m'' := by
  refine ⟨⟨hs.pmOk h.1.pm, fun hi => ?_⟩, fun bs hi hc => ?_⟩
  · obtain ⟨bs, hc⟩ := h.1.chain (hs.init ▸ hi)
    exact ⟨bs, hs.chain hc⟩
  · obtain ⟨hi', bs', hc', hk⟩ := h.2 bs hi hc
    refine ⟨hs.init.trans hi', bs', hs.chain hc', fun q b b' ha ha' x h₁ h₂ => ?_⟩
    have hb := place_bounds ha.1
    have ht := hc.tiles
    rw [hs.off x (fun hx => by
      simp only [outsideArena, Set.mem_ofPred_eq] at hx
      omega), hk q b b' ha ha' x h₁ h₂]

/-! ### The allocators of the MCB arena -/

theorem mcbReady_cases (m : Machine) : (m.mcbInitialised = true ∧ mcbReady m = m) ∨
    (m.mcbInitialised = false ∧
      mcbReady m = { m with mem := mcbInit m.mem, mcbInitialised := true }) := by
  unfold mcbReady
  by_cases h : m.mcbInitialised = true
  · exact Or.inl ⟨h, if_pos h⟩
  · exact Or.inr ⟨by simpa using h, if_neg h⟩

theorem mcbReady_init (m : Machine) : (mcbReady m).mcbInitialised = true := by
  rcases mcbReady_cases m with ⟨hi, hr⟩ | ⟨-, hr⟩
  · rw [hr, hi]
  · rw [hr]

theorem mcbReady_memOk {m : Machine} (hm : MemOk m) : MemOk (mcbReady m) := by
  rcases mcbReady_cases m with ⟨-, hr⟩ | ⟨-, hr⟩
  · rw [hr]
    exact hm
  · rw [hr]
    exact ⟨⟨hm.pm.packed, hm.pm.high, hm.pm.fresh⟩, fun _ => ⟨_, mcbInit_chain m.mem⟩⟩

/-- `mcb_allocate` returns.  It loses no block, and on success the new block is allocated
    and large enough. -/
theorem mcbAllocate_spec {m : Machine} (hm : MemOk m) (need : Nat) :
    ∃ mem seg largest bs', mcbAllocate m need = some ({ mcbReady m with mem := mem }, seg, largest) ∧
      Chain mem bs' ∧
      (∀ bs, m.mcbInitialised = true → Chain m.mem bs → Kept bs m.mem bs' mem ∧
        (∀ q b, Allocated bs q b → Allocated bs' q b) ∧ (seg = 0 → bs' = bs)) ∧
      (seg ≠ 0 → ∃ b, Allocated bs' (seg - 1) b ∧ need ≤ b.size ∧ 0x2000 < seg ∧ seg < 0xA001 ∧
        ∀ bs, m.mcbInitialised = true → Chain m.mem bs → ∀ q c, Allocated bs' q c →
          Allocated bs q c ∨ q = seg - 1) := by
  obtain ⟨bs, hc, hbs⟩ : ∃ bs, Chain (mcbReady m).mem bs ∧
      ∀ bs₀, m.mcbInitialised = true → Chain m.mem bs₀ → bs₀ = bs ∧ (mcbReady m).mem = m.mem := by
    rcases mcbReady_cases m with ⟨hi, hr⟩ | ⟨hi, hr⟩
    · obtain ⟨bs, hc⟩ := hm.chain hi
      rw [hr]
      exact ⟨bs, hc, fun bs₀ _ h₀ => ⟨h₀.unique hc, rfl⟩⟩
    · rw [hr]
      exact ⟨_, mcbInit_chain m.mem, fun bs₀ h => absurd h (by simp [hi])⟩
  unfold mcbAllocate
  rcases mcbAllocateIn_chain hc need with
    ⟨mem, pre, b, post, rfl, hfree, hneed, ⟨largest, halloc⟩, hc', hoff, -⟩ | ⟨halloc, -⟩
  · simp only [halloc]
    have hspan := hc.span_eq
    have hnew : Allocated (pre ++ carve 0 need ⟨PSP_SEG, b.size⟩ ++ post)
        (MCB_ARENA_START + span pre) ⟨PSP_SEG, carvedSize need b.size⟩ :=
      (allocated_alloc hfree need _ _).mpr (Or.inr ⟨rfl, rfl⟩)
    refine ⟨mem, _, largest, _, rfl, hc', fun bs₀ hi h₀ => ?_, fun _ => ⟨_, hnew,
      carvedSize_ge hneed, ?_, ?_, fun bs₀ hi h₀ q c ha => ?_⟩⟩
    · obtain ⟨rfl, hmem⟩ := hbs bs₀ hi h₀
      refine ⟨kept_of_off hc.tiles (hmem ▸ hoff.mono fun x hx => Or.inl (Or.inr hx)),
        fun q c ha => (allocated_alloc hfree need q c).mpr (Or.inl ha), fun h => ?_⟩
      simp [MCB_ARENA_START] at h
    · simp only [MCB_ARENA_START]
      omega
    · simp only [MCB_ARENA_START]
      omega
    · obtain ⟨rfl, hmem⟩ := hbs bs₀ hi h₀
      rcases (allocated_alloc hfree need q c).mp ha with ha | ha
      · exact Or.inl ha
      · exact Or.inr ha.1
  · simp only [halloc]
    refine ⟨_, 0, _, bs, rfl, hc, fun bs₀ hi h₀ => ?_, fun h => absurd rfl h⟩
    obtain ⟨rfl, hmem⟩ := hbs bs₀ hi h₀
    refine ⟨kept_of_off hc.tiles (hmem ▸ AgreesOff.refl _ _), fun q b ha => ha, fun _ => rfl⟩

/-- The data segment of an allocated block of the chain. -/
def AllocatedSeg (m : Machine) (s : Nat) : Prop :=
  m.mcbInitialised = true ∧ ∃ bs q b, Chain m.mem bs ∧ Allocated bs q b ∧ s = q + 1

theorem mcbFree_spec {m : Machine} {s : Nat} (hs : AllocatedSeg m s) :
    ∃ mem bs', mcbFree m s = ({ m with mem := mem }, true) ∧ Chain mem bs' ∧
      ∀ bs, Chain m.mem bs → Kept bs m.mem bs' mem ∧
        ∀ q c, Allocated bs' q c ↔ Allocated bs q c ∧ q ≠ s - 1 := by
  obtain ⟨hi, bs, q, b, hc, ha, rfl⟩ := hs
  obtain ⟨pre, post, rfl, rfl⟩ := mem_place_iff.mp ha.1
  obtain ⟨hok, hc', hoff⟩ := mcbFreeIn_chain hc
  refine ⟨(mcbFreeIn m.mem (MCB_ARENA_START + span pre + 1)).1, _, ?_, hc', fun bs₀ h₀ => ?_⟩
  · simp only [mcbFree, if_pos hi, hok]
  · rw [h₀.unique hc]
    exact ⟨kept_of_off hc.tiles (hoff.mono fun x hx => Or.inl (Or.inl hx)),
      fun q c => allocated_release b q c⟩

theorem mcbResize_spec {m : Machine} {s : Nat} (hs : AllocatedSeg m s) (n : Nat) :
    ∃ mem got largest bs', mcbResize m s n = ({ m with mem := mem }, got, largest) ∧
      Chain mem bs' ∧ ∀ bs, Chain m.mem bs → Kept bs m.mem bs' mem ∧
        ∀ b, Allocated bs (s - 1) b → ∃ n', (got = n → n ≤ n') ∧ (got ≠ n → n' = b.size) ∧
          ∀ q c, Allocated bs' q c ↔
            (Allocated bs q c ∧ q ≠ s - 1) ∨ (q = s - 1 ∧ c = ⟨b.tag, n'⟩) := by
  obtain ⟨hi, bs, q, b, hc, ha, rfl⟩ := hs
  obtain ⟨pre, post, rfl, rfl⟩ := mem_place_iff.mp ha.1
  obtain ⟨hc', hoff, hgot, -⟩ := mcbResizeIn_chain hc n
  refine ⟨(mcbResizeIn m.mem (MCB_ARENA_START + span pre + 1) n).1,
    (mcbResizeIn m.mem (MCB_ARENA_START + span pre + 1) n).2.1,
    (mcbResizeIn m.mem (MCB_ARENA_START + span pre + 1) n).2.2, _, ?_, hc', fun bs₀ h₀ => ?_⟩
  · simp only [mcbResize, if_pos hi]
  · rw [h₀.unique hc]
    refine ⟨kept_of_off hc.tiles (hoff.mono fun x hx => Or.inl hx), fun b' hb' => ?_⟩
    obtain rfl := place_inj ha.1 hb'.1
    obtain ⟨n', h₁, h₂, h₃⟩ := @allocated_resize pre post _ n ha.2
    rw [← hgot] at h₁ h₂
    exact ⟨n', h₁, h₂, h₃⟩

/-- Resizing to 0 always succeeds. -/
theorem mcbResize_zero {m : Machine} {s : Nat} (hs : AllocatedSeg m s) :
    (mcbResize m s 0).2.1 = 0 := by
  obtain ⟨hi, bs, q, b, hc, ha, rfl⟩ := hs
  obtain ⟨pre, post, rfl, rfl⟩ := mem_place_iff.mp ha.1
  simp only [mcbResize, if_pos hi, (mcbResizeIn_chain hc 0).2.2.1]
  exact (resize_of_le (Nat.zero_le _) 0 post).2

theorem mcbAllocate_preserves {m : Machine} (hm : MemOk m) (need : Nat) :
    ∃ m' seg largest, mcbAllocate m need = some (m', seg, largest) ∧ Preserves m m' ∧
      m'.mcbInitialised = true := by
  obtain ⟨mem, seg, largest, bs', halloc, hc', hk, -⟩ := mcbAllocate_spec hm need
  have hready : (mcbReady m).mcbInitialised = true := by
    rcases mcbReady_cases m with ⟨hi, hr⟩ | ⟨-, hr⟩ <;> rw [hr]
    exact hi
  have hpm : PmOk (mcbReady m) := by
    rcases mcbReady_cases m with ⟨-, hr⟩ | ⟨-, hr⟩ <;> rw [hr]
    · exact hm.pm
    · exact ⟨hm.pm.packed, hm.pm.high, hm.pm.fresh⟩
  refine ⟨_, seg, largest, halloc, ⟨⟨⟨hpm.packed, hpm.high, hpm.fresh⟩, fun _ => ⟨bs', hc'⟩⟩,
    fun bs hi hc => ⟨hready, bs', hc', (hk bs hi hc).1⟩⟩, hready⟩

theorem mcbFree_preserves {m : Machine} (hm : MemOk m) {s : Nat} (hs : AllocatedSeg m s) :
    Preserves m (mcbFree m s).1 ∧ (mcbFree m s).2 = true := by
  obtain ⟨mem, bs', hfree, hc', hk⟩ := mcbFree_spec hs
  rw [hfree]
  exact ⟨⟨⟨⟨hm.pm.packed, hm.pm.high, hm.pm.fresh⟩, fun _ => ⟨bs', hc'⟩⟩,
    fun bs hi hc => ⟨hi, bs', hc', (hk bs hc).1⟩⟩, rfl⟩

theorem mcbResize_preserves {m : Machine} (hm : MemOk m) {s : Nat} (hs : AllocatedSeg m s)
    (n : Nat) : Preserves m (mcbResize m s n).1 := by
  obtain ⟨mem, got, largest, bs', hres, hc', hk⟩ := mcbResize_spec hs n
  rw [hres]
  exact ⟨⟨⟨hm.pm.packed, hm.pm.high, hm.pm.fresh⟩, fun _ => ⟨bs', hc'⟩⟩,
    fun bs hi hc => ⟨hi, bs', hc', (hk bs hc).1⟩⟩

/-- Allocating in the protected-mode arena leaves the chain alone. -/
theorem pmAlloc_preserves {m : Machine} (hm : MemOk m) {bytes : Nat} (hb : bytes < 4294967296) :
    Preserves m (pmAlloc m bytes).1 ∧
      ((pmAlloc m bytes).2 = 0 → (pmAlloc m bytes).1.mem = m.mem) ∧
      (pmAlloc m bytes).1.mcbInitialised = m.mcbInitialised := by
  obtain ⟨hok, hcase⟩ := pmAlloc_spec hm.pm hb
  have hinit : (pmAlloc m bytes).1.mcbInitialised = m.mcbInitialised := by
    obtain ⟨mem, busy, hf⟩ := pmAlloc_frame m bytes
    rw [hf]
    unfold pmInit
    split_ifs <;> rfl
  have hoff : AgreesOff outsideArena m.mem (pmAlloc m bytes).1.mem := by
    rcases hcase with ⟨-, -, hmem⟩ | ⟨e, -, -, -, -, hfit, hoff⟩
    · rw [hmem]
      exact AgreesOff.refl _ _
    · refine hoff.mono fun x hx => ?_
      have h₁ := hfit.low
      have h₂ := hx.1
      simp only [PM_ARENA_START] at h₁
      simp only [outsideArena, MCB_ARENA_START, MCB_ARENA_END, Set.mem_ofPred_eq]
      omega
  refine ⟨⟨⟨hok, fun hi => ?_⟩, fun bs hi hc => ?_⟩, ?_, hinit⟩
  · obtain ⟨bs, hc⟩ := hm.chain (hinit ▸ hi)
    exact ⟨bs, hc.frame hoff fun _ hx => headerBytes_inside hc hx⟩
  · exact ⟨hinit.trans hi, bs, hc.frame hoff fun _ hx => headerBytes_inside hc hx,
      kept_of_off hc.tiles (hoff.mono fun x hx => Or.inr hx)⟩
  · intro h0
    rcases hcase with ⟨-, -, hmem⟩ | ⟨e, he, -, -, -, hfit, -⟩
    · exact hmem
    · have := hfit.low
      simp only [PM_ARENA_START] at this
      omega

/-! ### The calls -/

inductive MemCall where
  | ah48 | ah49 | ah4A | ax0100 | ax0101 | ax0102 | ax0501 | ax0502 | ax0503
deriving DecidableEq, Repr

/-- The service a call reaches. -/
def MemCall.serve : MemCall → Machine → Reply
  | .ah48 => int21_48
  | .ah49 => int21_49
  | .ah4A => int21_4A
  | .ax0100 => int31_0100
  | .ax0101 => int31_0101
  | .ax0102 => int31_0102
  | .ax0501 => int31_0501
  | .ax0502 => int31_0502
  | .ax0503 => int31_0503

/-- The block argument of a call, where it takes one, is the data segment of an allocated
    block of the chain.  (AX=0101/0102 take theirs from the selector's descriptor, and only
    when the selector is one they accept.) -/
def MemCall.ArgOk (m : Machine) : MemCall → Prop
  | .ah49 | .ah4A => AllocatedSeg m (m.segVal .es)
  | .ax0101 => ∀ idx, dosBlockSlot m m.dx = some idx → AllocatedSeg m (slotDataSeg m idx)
  | .ax0102 => ∀ idx, dosBlockSlot m m.bx = some idx → AllocatedSeg m (slotDataSeg m idx)
  | .ax0502 | .ax0503 => m.si = 0 ∧ AllocatedSeg m m.di
  | .ah48 | .ax0100 | .ax0501 => True

theorem Preserves.regs {m m' : Machine} (h : Preserves m m') (rs : List (Reg × Nat)) :
    Preserves m (m'.setR16s rs) := 
  h.same (sameArena_of_sameHost (sameHost_setR16s m' rs))

theorem Preserves.fail {m m' : Machine} (h : Preserves m m') (code : Nat) :
    Preserves m (failWith m' code).1 := 
  h.same (sameArena_of_sameHost (sameHost_setR16 m' .eax code))

/-- Writing a slot of the LDT does not touch the arena. -/
theorem ldt_outside (idx n : Nat) : Set.Ico (LDT_BASE + idx * 8) (LDT_BASE + idx * 8 + n) ⊆
    outsideArena := by
  intro x hx
  have h := hx.1
  simp only [LDT_BASE] at h
  simp only [outsideArena, MCB_ARENA_START, MCB_ARENA_END, Set.mem_ofPred_eq]
  omega

theorem int21_48_preserves {m : Machine} (hm : MemOk m) :
    ∃ r, int21_48 m = some r ∧ Preserves m r.1 := by
  obtain ⟨m', seg, largest, halloc, hp, -⟩ := mcbAllocate_preserves hm m.bx
  unfold int21_48
  rw [halloc]
  dsimp only
  split_ifs
  · exact ⟨_, rfl, hp.regs _⟩
  · exact ⟨_, rfl, hp.same (sameArena_of_sameHost (sameHost_setR16 _ _ _))⟩

theorem int21_49_preserves {m : Machine} (hm : MemOk m) (ha : MemCall.ArgOk m .ah49) :
    ∃ r, int21_49 m = some r ∧ Preserves m r.1 := by
  obtain ⟨hp, hok⟩ := mcbFree_preserves hm ha
  unfold int21_49
  dsimp only
  rw [if_pos hok]
  exact ⟨_, rfl, hp⟩

theorem AllocatedSeg.bounds {m : Machine} {s : Nat} (hs : AllocatedSeg m s) :
    MCB_ARENA_START < s ∧ s ≤ MCB_ARENA_END := by
  obtain ⟨-, bs, q, b, hc, ha, rfl⟩ := hs
  have hb := place_bounds ha.1
  have ht := hc.tiles
  omega

theorem int21_4A_preserves {m : Machine} (hm : MemOk m) (ha : MemCall.ArgOk m .ah4A) :
    ∃ r, int21_4A m = some r ∧ Preserves m r.1 := by
  have hb := AllocatedSeg.bounds ha
  have hp := mcbResize_preserves hm ha m.bx
  simp only [MCB_ARENA_START] at hb
  unfold int21_4A
  rw [if_neg (by simp only [PSP_SEG]; omega), if_neg (by simp only [MCB_ARENA_START]; omega)]
  dsimp only
  split_ifs
  · exact ⟨_, rfl, hp⟩
  · exact ⟨_, rfl, hp.regs _⟩

theorem int31_0100_preserves {m : Machine} (hm : MemOk m) :
    ∃ r, int31_0100 m = some r ∧ Preserves m r.1 := by
  unfold int31_0100
  by_cases h0 : m.bx = 0
  · rw [if_pos h0]
    exact ⟨_, rfl, (Preserves.refl hm).fail _⟩
  rw [if_neg h0]
  obtain ⟨mem, seg, largest, bs', halloc, hc', hk, hnew⟩ := mcbAllocate_spec hm m.bx
  obtain ⟨m', seg', largest', halloc', hp, hi'⟩ := mcbAllocate_preserves hm m.bx
  obtain ⟨rfl, rfl, rfl⟩ : m' = { mcbReady m with mem := mem } ∧ seg' = seg ∧ largest' = largest := by
    simpa using halloc'.symm.trans halloc
  rw [halloc]
  dsimp only
  by_cases hseg : seg' = 0
  · rw [if_pos hseg]
    exact ⟨_, rfl, hp.regs _⟩
  rw [if_neg hseg]
  split_ifs with hldt
  · -- the LDT is full: the block just allocated is freed again
    refine ⟨_, rfl, Preserves.fail ?_ _⟩
    obtain ⟨b, hb, -, hlow, -, -⟩ := hnew hseg
    have hs : AllocatedSeg { mcbReady m with mem := mem } seg' :=
      ⟨hi', bs', seg' - 1, b, hc', hb, by omega⟩
    obtain ⟨hp₂, -⟩ := mcbFree_preserves hp.1 hs
    refine ⟨hp₂.1, fun bs hi hc => ?_⟩
    obtain ⟨hi₂, bs₂, hc₂, hk₂⟩ := hp₂.2 bs' hi' hc'
    exact ⟨hi₂, bs₂, hc₂, (hk bs hi hc).1.trans (hk bs hi hc).2.1 hk₂⟩
  · refine ⟨_, rfl, Preserves.regs (hp.same ?_) _⟩
    exact ⟨rfl, rfl, rfl, rfl, (writeLdtDescriptor_off _ _ _ _ _ _).mono (ldt_outside _ 8)⟩

theorem int31_0101_preserves {m : Machine} (hm : MemOk m) (ha : MemCall.ArgOk m .ax0101) :
    ∃ r, int31_0101 m = some r ∧ Preserves m r.1 := by
  unfold int31_0101
  cases hslot : dosBlockSlot m m.dx with
  | none => exact ⟨_, rfl, (Preserves.refl hm).fail _⟩
  | some idx =>
    obtain ⟨hp, -⟩ := mcbFree_preserves hm (ha idx hslot)
    refine ⟨_, rfl, hp.same ?_⟩
    exact ⟨rfl, rfl, rfl, rfl, (writeLdtDescriptor_off _ _ _ _ _ _).mono (ldt_outside _ 8)⟩

theorem int31_0102_preserves {m : Machine} (hm : MemOk m) (ha : MemCall.ArgOk m .ax0102) :
    ∃ r, int31_0102 m = some r ∧ Preserves m r.1 := by
  unfold int31_0102
  cases hslot : dosBlockSlot m m.bx with
  | none => exact ⟨_, rfl, (Preserves.refl hm).fail _⟩
  | some idx =>
    have hp := mcbResize_preserves hm (ha idx hslot) m.dx
    dsimp only
    split_ifs
    · exact ⟨_, rfl, hp.regs _⟩
    · refine ⟨_, rfl, hp.same ⟨rfl, rfl, rfl, rfl, ?_⟩⟩
      have hin : ∀ i, i < 8 → Set.Ico (LDT_BASE + idx * 8 + i) (LDT_BASE + idx * 8 + i + 1) ⊆
          outsideArena := fun i hi => (Set.Ico_subset_Ico (by omega) (by omega)).trans
        (ldt_outside idx 8)
      exact (((writeb_off _ _ _).mono (hin 0 (by decide))).trans
        ((writeb_off _ _ _).mono (hin 1 (by decide)))).trans
        ((writeb_off _ _ _).mono (hin 6 (by decide)))

theorem sizeArg_lt (m : Machine) : sizeArg m < 4294967296 := by
  have h₁ := m.r16_lt .ebx
  have h₂ := m.r16_lt .ecx
  simp only [sizeArg, bx, cx]
  omega

theorem int31_0501_preserves {m : Machine} (hm : MemOk m) :
    ∃ r, int31_0501 m = some r ∧ Preserves m r.1 := by
  unfold int31_0501
  dsimp only
  by_cases h0 : sizeArg m = 0
  · rw [if_pos h0]
    exact ⟨_, rfl, (Preserves.refl hm).fail _⟩
  rw [if_neg h0]
  obtain ⟨hp, hmem, hinit⟩ := pmAlloc_preserves hm (sizeArg_lt m)
  split_ifs with hlin hparas
  · exact ⟨_, rfl, hp.regs _⟩
  · -- tier 2: the first step has left memory and the chain as they were
    obtain ⟨m', seg, largest, halloc, hp₂, hi₂⟩ := mcbAllocate_preserves hp.1
      (bytesToParas (sizeArg m))
    have hp' : Preserves m m' := by
      refine ⟨hp₂.1, fun bs hi hc => ?_⟩
      have hzero : (pmAlloc m (sizeArg m)).2 = 0 := by simpa using hlin
      rw [← hmem hzero] at hc ⊢
      exact hp₂.2 bs (hinit.trans hi) hc
    rw [halloc]
    dsimp only
    split_ifs
    · exact ⟨_, rfl, hp'.regs _⟩
    · exact ⟨_, rfl, hp'.fail _⟩
  · exact ⟨_, rfl, hp.fail _⟩

theorem int31_0502_preserves {m : Machine} (hm : MemOk m) (ha : MemCall.ArgOk m .ax0502) :
    ∃ r, int31_0502 m = some r ∧ Preserves m r.1 := by
  obtain ⟨hsi, hs⟩ := ha
  obtain ⟨hp, hok⟩ := mcbFree_preserves hm hs
  unfold int31_0502
  rw [if_pos hsi]
  split_ifs
  · exact ⟨_, rfl, (Preserves.refl hm).fail _⟩
  · dsimp only
    rw [if_pos hok]
    exact ⟨_, rfl, hp⟩

theorem int31_0503_preserves {m : Machine} (hm : MemOk m) (ha : MemCall.ArgOk m .ax0503) :
    ∃ r, int31_0503 m = some r ∧ Preserves m r.1 := by
  obtain ⟨hsi, hs⟩ := ha
  have hp := mcbResize_preserves hm hs (bytesToParas (sizeArg m))
  unfold int31_0503
  dsimp only
  rw [if_pos hsi]
  split_ifs
  · exact ⟨_, rfl, (Preserves.refl hm).fail _⟩
  · exact ⟨_, rfl, (Preserves.refl hm).fail _⟩
  · exact ⟨_, rfl, (Preserves.refl hm).fail _⟩
  · exact ⟨_, rfl, hp.fail _⟩
  · exact ⟨_, rfl, hp.regs _⟩

/-- Every call returns, keeps the invariant and keeps the blocks' bytes. -/
theorem serve_preserves {m : Machine} (hm : MemOk m) {c : MemCall} (ha : c.ArgOk m) :
    ∃ r, c.serve m = some r ∧ Preserves m r.1 := by
  cases c with
  | ah48 => exact int21_48_preserves hm
  | ah49 => exact int21_49_preserves hm ha
  | ah4A => exact int21_4A_preserves hm ha
  | ax0100 => exact int31_0100_preserves hm
  | ax0101 => exact int31_0101_preserves hm ha
  | ax0102 => exact int31_0102_preserves hm ha
  | ax0501 => exact int31_0501_preserves hm
  | ax0502 => exact int31_0502_preserves hm ha
  | ax0503 => exact int31_0503_preserves hm ha

/-! ### Runs -/

/-- What a reader of the chain relies on: the last header alone is marked 'Z', each header is
    followed by the next one at its own position plus one plus its size, the blocks cover
    the arena exactly, and allocated blocks do not overlap. -/
structure Tiled (mem : Mem) (bs : List (Block Nat)) : Prop where
  chain : Chain mem bs
  marks : ∀ q b, (q, b) ∈ place MCB_ARENA_START bs →
    readb mem (q * 16) = if q + 1 + b.size = MCB_ARENA_END then 0x5A else 0x4D
  next : ∀ q b, (q, b) ∈ place MCB_ARENA_START bs → q + 1 + b.size = MCB_ARENA_END ∨
    ∃ c, (q + 1 + b.size, c) ∈ place MCB_ARENA_START bs
  covers : ∀ s, MCB_ARENA_START ≤ s → s < MCB_ARENA_END →
    ∃ q b, (q, b) ∈ place MCB_ARENA_START bs ∧ q ≤ s ∧ s < q + 1 + b.size
  disjoint : ∀ q b q' b', Allocated bs q b → Allocated bs q' b' → q ≠ q' →
    q + 1 + b.size ≤ q' ∨ q' + 1 + b'.size ≤ q

theorem Mcb.Chain.tiled {mem : Mem} {bs : List (Block Nat)} (h : Chain mem bs) : Tiled mem bs where
  chain := h
  marks q b hm := by
    obtain ⟨pre, post, rfl, rfl⟩ := mem_place_iff.mp hm
    have hspan := h.span_eq
    rw [h.header.type]
    cases post with
    | nil =>
      simp only [span_nil] at hspan
      have hend : MCB_ARENA_START + span pre + 1 + b.size = MCB_ARENA_END := by
        simp only [MCB_ARENA_START, MCB_ARENA_END]
        omega
      simp [hend]
    | cons c post =>
      simp only [span_cons] at hspan
      have hend : MCB_ARENA_START + span pre + 1 + b.size ≠ MCB_ARENA_END := by
        simp only [MCB_ARENA_START, MCB_ARENA_END]
        omega
      simp [hend]
  next q b hm := by
    obtain ⟨pre, post, rfl, rfl⟩ := mem_place_iff.mp hm
    have hspan := h.span_eq
    cases post with
    | nil =>
      simp only [span_nil] at hspan
      exact Or.inl (by simp only [MCB_ARENA_START, MCB_ARENA_END]; omega)
    | cons c post =>
      refine Or.inr ⟨c, mem_place_iff.mpr ⟨pre ++ [b], post, by simp, ?_⟩⟩
      simp only [span_append, span_cons, span_nil]
      omega
  covers s h₁ h₂ := place_covers h₁ (h.tiles ▸ h₂)
  disjoint q b q' b' ha ha' hne := by
    rcases place_disjoint ha.1 ha'.1 with h | h | h
    · exact absurd h.1 hne
    · exact Or.inl h
    · exact Or.inr h

/-- One event of a run: the guest runs for a while, or makes a memory call. -/
inductive ArenaEvent where
  | guest (cpu : Cpu) (mem : Mem)
  | call (c : MemCall)

def arenaStep (m : Machine) : ArenaEvent → Machine → Prop
  | .guest cpu mem, m' => m' = { m with cpu := cpu, mem := mem }
  | .call c, m' => finish (c.serve m) = some m'

/-- The FLAGS image the call's `set_cf` edits is not on a header of the chain the call
    leaves. -/
def FlagsClear (m : Machine) (c : MemCall) : Prop :=
  ∀ r bs, c.serve m = some r → r.1.mcbInitialised = true → Chain r.1.mem bs →
    flagsAddr r.1 ∉ headerBytes bs

/-- The guest does not write chain headers, and calls with an allocated block. -/
def ProperArgs (m : Machine) : ArenaEvent → Prop
  | .guest _ mem => m.mcbInitialised = true → ∀ bs, Chain m.mem bs →
      ∀ x ∈ headerBytes bs, mem x = m.mem x
  | .call c => c.ArgOk m

/-- `ProperArgs`, and no call is made with its FLAGS image on a chain header. -/
def Proper (m : Machine) (e : ArenaEvent) : Prop :=
  ProperArgs m e ∧ ∀ c, e = .call c → FlagsClear m c

/-- The bytes of a block allocated before and after are the same, except that the carry bit of
    the FLAGS image of the call may have changed. -/
def KeptButCarry (m m' : Machine) : Prop :=
  ∀ bs bs', m.mcbInitialised = true → Chain m.mem bs → Chain m'.mem bs' →
    ∀ q b b', Allocated bs q b → Allocated bs' q b' → ∀ x, (q + 1) * 16 ≤ x →
      x < (q + 1 + min b.size b'.size) * 16 → m'.mem x = m.mem x ∨
        (x = flagsAddr m' ∧ (m'.mem x).toNat / 2 = (m.mem x).toNat / 2)

theorem call_step {m : Machine} (hm : MemOk m) {c : MemCall} (hp : Proper m (.call c)) :
    ∃ m', arenaStep m (.call c) m' ∧ MemOk m' ∧ KeptButCarry m m' := by
  obtain ⟨r, hr, hok, hk⟩ := serve_preserves hm hp.1
  have hclear := hp.2 c rfl r
  have hoff := setCf_off r.1 r.2
  refine ⟨setCf r.1 r.2, by simp only [arenaStep, finish, hr, Option.map_some], ?_, ?_⟩
  · refine ⟨⟨hok.pm.packed, hok.pm.high, hok.pm.fresh⟩, fun hi => ?_⟩
    obtain ⟨bs, hc⟩ := hok.chain hi
    refine ⟨bs, hc.frame hoff fun x hx => ?_⟩
    rw [Set.mem_singleton_iff.mp hx]
    exact hclear bs hr hi hc
  · intro bs bs' hi hc hc' q b b' ha ha' x h₁ h₂
    obtain ⟨hi₁, bs₁, hc₁, hk₁⟩ := hk bs hi hc
    have hc₂ : Chain (setCf r.1 r.2).mem bs₁ := by
      refine hc₁.frame hoff fun x hx => ?_
      rw [Set.mem_singleton_iff.mp hx]
      exact hclear bs₁ hr hi₁ hc₁
    rw [hc'.unique hc₂] at ha'
    have hkx := hk₁ q b b' ha ha' x h₁ h₂
    by_cases hx : x = flagsAddr r.1
    · subst hx
      right
      refine ⟨rfl, ?_⟩
      rw [setCf_byte, hkx]
    · left
      rw [hoff x hx, hkx]

theorem arenaStep_memOk {m m' : Machine} {e : ArenaEvent} (hm : MemOk m) (hp : Proper m e)
    (hs : arenaStep m e m') : MemOk m' := by
  cases e with
  | guest cpu mem =>
    simp only [arenaStep] at hs
    subst hs
    refine ⟨⟨hm.pm.packed, hm.pm.high, hm.pm.fresh⟩, fun hi => ?_⟩
    obtain ⟨bs, hc⟩ := hm.chain hi
    refine ⟨bs, hc.frame (S := { x | mem x ≠ m.mem x }) (fun x hx => ?_) fun x hx hb => ?_⟩
    · by_contra hne
      exact hx hne
    · exact hx (hp.1 hi bs hc x hb)
  | call c =>
    obtain ⟨m₁, hs₁, hok, -⟩ := call_step hm hp
    simp only [arenaStep] at hs hs₁
    rw [Option.some.inj (hs.symm.trans hs₁)]
    exact hok

/-- **The MCB chain is safe.**  In every run of memory calls with block arguments that are
    allocated, and FLAGS images off the headers, the chain stays well formed; every further
    such call returns, and leaves every block it does not free or allocate as it was up to
    the carry bit of its own FLAGS image. -/
theorem memCalls_keep_arena {m₀ m : Machine} {es : List ArenaEvent} (h₀ : MemOk m₀)
    (hrun : Guarded arenaStep Proper m₀ es m) :
    (m.mcbInitialised = true → ∃ bs, Tiled m.mem bs) ∧
      ∀ c, Proper m (.call c) → ∃ m', arenaStep m (.call c) m' ∧ KeptButCarry m m' ∧
        (m'.mcbInitialised = true → ∃ bs, Tiled m'.mem bs) := by
  have hok : MemOk m := hrun.invariant (fun _ _ _ h hg hs => arenaStep_memOk h hg hs) h₀
  refine ⟨fun hi => ?_, fun c hp => ?_⟩
  · obtain ⟨bs, hc⟩ := hok.chain hi
    exact ⟨bs, hc.tiled⟩
  · obtain ⟨m', hs, hok', hk⟩ := call_step hok hp
    refine ⟨m', hs, hk, fun hi => ?_⟩
    obtain ⟨bs, hc⟩ := hok'.chain hi
    exact ⟨bs, hc.tiled⟩

/-! ### A run from boot -/

/-- A real-mode CPU with BX and the base of SS set, every other register 0. -/
def arenaCpu (bx : BitVec 32) (ss : BitVec 32) : Cpu :=
  { zeroCpu with
    regs := Function.update zeroCpu.regs .ebx bx
    segs := Function.update zeroCpu.segs .ss ⟨0, ss⟩ }

/-- The first program asks for 0x1000 paragraphs. -/
def asking : Machine := { bootMachine with cpu := arenaCpu 0x1000 0 }

/-- It got them. -/
def served : Machine := (finish (MemCall.serve .ah48 asking)).getD asking

/-- Now it asks for more than there is, with its stack at `ss`:0000. -/
def starved (ss : BitVec 32) : Machine := { served with cpu := arenaCpu 0xFFFF ss }

/-- It gets an error. -/
def refused (ss : BitVec 32) : Machine := (finish (MemCall.serve .ah48 (starved ss))).getD asking

/-- The chain after the first call. -/
def asked : List (Block Nat) := [⟨PSP_SEG, 0x1000⟩, ⟨0, 0x6FFE⟩]

theorem memOk_boot : MemOk bootMachine where
  pm := ⟨Packed.nil, by decide, fun _ => rfl⟩
  chain h := absurd h (by decide)

theorem call_served : arenaStep asking (.call .ah48) served :=
  (Option.getD_of_ne_none (by decide +kernel) _).symm

theorem asking_proper : ProperArgs bootMachine (.guest asking.cpu asking.mem) :=
  fun h => absurd h (by decide)

theorem chain_asked : Chain served.mem asked := by
  refine ⟨by decide, by decide, ?_⟩
  simp only [asked, Links]
  refine ⟨⟨?_, ?_, ?_⟩, ⟨?_, ?_, ?_⟩, trivial⟩ <;> decide +kernel

theorem call_refused {ss : BitVec 32} (h : finish (MemCall.serve .ah48 (starved ss)) ≠ none) :
    arenaStep (starved ss) (.call .ah48) (refused ss) :=
  (Option.getD_of_ne_none h _).symm

/-- The FLAGS image of this call is on the last header: no chain leads past it. -/
theorem no_chain_refused : ¬ ∃ bs, Chain (refused 0x3000C).mem bs := by
  rintro ⟨bs, hc⟩
  have hlinks := hc.links
  have hfirst : readb (refused 0x3000C).mem 0x20000 = 0x4D := by decide +kernel
  have hsize : readw (refused 0x3000C).mem 0x20003 = 0x1000 := by decide +kernel
  have hlast : readb (refused 0x3000C).mem 0x30010 = 0x5B := by decide +kernel
  match bs, hlinks with
  | [b], h =>
    have hb := hfirst.symm.trans h.1.type
    simp at hb
  | b :: c :: bs, h =>
    have hb : b.size = 0x1000 := h.1.size.symm.trans hsize
    have hc := h.2.1.type
    rw [hb] at hc
    simp only [MCB_ARENA_START] at hc
    rw [hlast] at hc
    split at hc <;> omega

/-- The run up to the first call, whose FLAGS image at 0000:0004 is below the arena. -/
theorem memCalls_keep_arena_boot :
    (served.mcbInitialised = true → ∃ bs, Tiled served.mem bs) ∧
      ∀ c, Proper served (.call c) → ∃ m', arenaStep served (.call c) m' ∧ KeptButCarry served m' ∧
        (m'.mcbInitialised = true → ∃ bs, Tiled m'.mem bs) := by
  refine memCalls_keep_arena memOk_boot (.cons ⟨asking_proper, fun c h => by cases h⟩
    (show arenaStep _ _ asking from rfl) (.cons ⟨show ProperArgs asking (.call .ah48) from trivial, ?_⟩
      call_served (.nil _)))
  rintro c ⟨⟩ r bs hr - hc ⟨q, b, hm, h₁, -⟩
  have hflags : (MemCall.serve .ah48 asking).map (fun r => flagsAddr r.1) = some 4 := by
    decide +kernel
  rw [hr] at hflags
  have hlow := (place_bounds hm).1
  simp only [Option.map_some, Option.some.injEq] at hflags
  simp only [MCB_ARENA_START] at hlow
  omega

/-- Without the exception for the FLAGS image the chain is not safe.  After the run
    "allocate 0x1000 paragraphs; move the stack; ask for too much", with the stack inside the
    block the program owns the refused call has changed a byte of that block, and with the
    FLAGS image on the block's header there is no chain any more. -/
theorem memCalls_edit_flags_image :
    Guarded arenaStep ProperArgs bootMachine
      [.guest asking.cpu asking.mem, .call .ah48, .guest (starved 0x20010).cpu served.mem]
      (starved 0x20010) ∧
    arenaStep (starved 0x20010) (.call .ah48) (refused 0x20010) ∧
    Chain (starved 0x20010).mem asked ∧ Chain (refused 0x20010).mem asked ∧
    Allocated asked 0x2000 ⟨PSP_SEG, 0x1000⟩ ∧
    (refused 0x20010).mem 0x20014 ≠ (starved 0x20010).mem 0x20014 ∧
    arenaStep (starved 0x3000C) (.call .ah48) (refused 0x3000C) ∧
    ¬ ∃ bs, Chain (refused 0x3000C).mem bs := by
  refine ⟨?_, call_refused (by decide +kernel), chain_asked, ?_,
    ⟨by decide, by decide⟩, by decide +kernel,
    call_refused (by decide +kernel), no_chain_refused⟩
  · exact .cons asking_proper rfl (.cons trivial call_served
      (.cons (fun _ _ _ _ _ => rfl) rfl (.nil _)))
  · refine ⟨by decide, by decide, ?_⟩
    simp only [asked, Links]
    refine ⟨⟨?_, ?_, ?_⟩, ⟨?_, ?_, ?_⟩, trivial⟩ <;> decide +kernel

end Dosiz
