/-
  Dosiz/DosBlocks.lean
  ====================
  **DOS blocks and their selectors** (INT 31h AX=0100, 0101 and 0102 of `bridge.cc`).

  A block of the MCB chain and a descriptor that covers it are taken, resized and freed together.
  Two ways lead apart: a block resized to 0 paragraphs gets the limit 0FFFFFh, and AX=0101 frees
  the descriptor also when its base names no block.  `dosBlocks_right`: in every run without
  these two, each selector that is live covers its block and ends in it, and each AX=0101 frees
  both or none.
-/
import Dosiz.BlockHandles
import Dosiz.DescriptorGrants
import Dosiz.FailedCalls
import Dosiz.SegmentCaches

namespace Dosiz

open ByteMemory BlockChain Machine Mcb PmArena Transition

/-! ### Blocks and their sizes -/

/-- The segment `s` is that of an allocated block of `n` paragraphs. -/
def BlockSize (m : Machine) (s n : Nat) : Prop :=
  m.mcbInitialised = true ∧ ∃ bs b, Chain m.mem bs ∧ Allocated bs (s - 1) b ∧ 0 < s ∧ b.size = n

section Sizes

variable {m r : Machine} {s t n : Nat}

theorem BlockSize.allocated (h : BlockSize m s n) : AllocatedSeg m s := by
  obtain ⟨hi, bs, b, hc, ha, hpos, -⟩ := h
  exact ⟨hi, bs, s - 1, b, hc, ha, by omega⟩

theorem AllocatedSeg.size (h : AllocatedSeg m s) : ∃ n, BlockSize m s n := by
  obtain ⟨hi, bs, q, b, hc, ha, rfl⟩ := h
  exact ⟨b.size, hi, bs, b, hc, ha, Nat.succ_pos q, rfl⟩

/-- The block ends in the arena. -/
theorem BlockSize.bounds (h : BlockSize m s n) : MCB_ARENA_START < s ∧ s + n ≤ MCB_ARENA_END := by
  obtain ⟨-, bs, b, hc, ha, hpos, rfl⟩ := h
  have hb := place_bounds ha.1
  have ht := hc.tiles
  omega

/-- Only the headers matter. -/
theorem BlockSize.same (hinit : r.mcbInitialised = m.mcbInitialised)
    (hchain : ∀ bs, Chain m.mem bs → Chain r.mem bs) (h : BlockSize m s n) : BlockSize r s n := by
  obtain ⟨hi, bs, b, hc, ha⟩ := h
  exact ⟨hinit.trans hi, bs, b, hchain bs hc, ha⟩

theorem BlockSize.sameArena (hs : SameArena m r) (h : BlockSize m s n) : BlockSize r s n :=
  h.same hs.init fun _ => hs.chain

/-- `mcb_allocate` keeps the blocks, and gives a new one. -/
theorem mcbAllocate_sizes (hm : MemOk m) {need : Nat} {a : Machine × Nat × Nat}
    (h : mcbAllocate m need = some a) : (∀ s n, BlockSize m s n → BlockSize a.1 s n) ∧
      (a.2.1 ≠ 0 → ¬ AllocatedSeg m a.2.1 ∧ ∃ n, need ≤ n ∧ BlockSize a.1 a.2.1 n) := by
  obtain ⟨mem, seg, largest, bs', halloc, hc', hk, hnew⟩ := mcbAllocate_spec hm need
  obtain ⟨m', seg', largest', halloc', hholds, hfresh⟩ := mcbAllocate_holds hm need
  rw [halloc] at h halloc'
  cases h
  cases halloc'
  have hinit : (mcbReady m).mcbInitialised = true := by
    rcases mcbReady_cases m with ⟨hi, hr⟩ | ⟨-, hr⟩ <;> rw [hr]
    exact hi
  refine ⟨?_, fun hseg => ⟨(hfresh hseg).2.1, ?_⟩⟩
  · rintro s n ⟨hi, bs, b, hc, ha, hpos, hn⟩
    exact ⟨hinit, bs', b, hc', (hk bs hi hc).2.1 _ b ha, hpos, hn⟩
  · obtain ⟨b, hb, hneed, hlow, -, -⟩ := hnew hseg
    exact ⟨b.size, hneed, hinit, bs', b, hc', hb, by omega, rfl⟩

/-- `mcb_free` takes one block away. -/
theorem mcbFree_sizes (ht : AllocatedSeg m t) : ¬ AllocatedSeg (mcbFree m t).1 t ∧
    ∀ s n, s ≠ t → BlockSize m s n → BlockSize (mcbFree m t).1 s n := by
  obtain ⟨mem, bs', hfree, hc', hk⟩ := mcbFree_spec ht
  have hpos : MCB_ARENA_START < t := ht.bounds.1
  rw [hfree]
  constructor
  · rintro ⟨-, bs, q, b, hc, ha, rfl⟩
    obtain ⟨-, bs₀, q₀, b₀, hc₀, -, -⟩ := ht
    rw [Chain.unique hc hc'] at ha
    exact (((hk bs₀ hc₀).2 q b).mp ha).2 (by omega)
  · rintro s n hne ⟨hi, bs, b, hc, ha, hs, hn⟩
    exact ⟨hi, bs', b, hc', ((hk bs hc).2 _ b).mpr ⟨ha, by omega⟩, hs, hn⟩

/-- `mcb_resize` of a block, allocated or not, keeps the others. -/
theorem mcbResize_others {bs : List (Block Nat)} {b : Block Nat} (hb : BlockSeg m t bs b) (need : Nat) :
    ∀ s n, s ≠ t → BlockSize m s n → BlockSize (mcbResize m t need).1 s n := by
  obtain ⟨pre, post, rfl, ht⟩ := hb.split
  rintro s n hne ⟨hi, bs₀, c, hc, ha, hs, hn⟩
  obtain rfl := hc.unique hb.1
  subst ht
  obtain ⟨hc', -⟩ := mcbResizeIn_chain hc need
  have hother := allocated_resize_other need ha (by omega)
  unfold mcbResize
  rw [if_pos hi]
  exact ⟨hi, _, c, hc', hother, hs, hn⟩

/-- A block that is resized has the room that was asked for. -/
theorem mcbResize_grown (ht : AllocatedSeg m t) {need : Nat} (hgot : (mcbResize m t need).2.1 = need) :
    ∃ n, need ≤ n ∧ BlockSize (mcbResize m t need).1 t n := by
  obtain ⟨mem, got, largest, bs', hres, hc', hk⟩ := mcbResize_spec ht need
  obtain ⟨hi, bs, q, b, hc, ha, rfl⟩ := ht
  obtain ⟨n', hroom, -, hall⟩ := (hk bs hc).2 b ha
  rw [hres] at hgot ⊢
  exact ⟨n', hroom hgot, hi, bs', ⟨b.tag, n'⟩, hc', (hall _ _).mpr (Or.inr ⟨rfl, rfl⟩), Nat.succ_pos q, rfl⟩

end Sizes

/-! ### What a selector of a block has -/

/-- A block that AX=0100 gave out: the slot of its selector, its segment, and the paragraphs it was last
    sized to. -/
structure DosBlock where
  slot : Nat
  seg : Nat
  paras : Nat
deriving DecidableEq, Repr

/-- The descriptor in the slot. -/
def slotAddr (slot : Nat) : Nat := LDT_BASE + slot * 8

/-- The selector covers the block and ends in it. -/
structure Covers (m : Machine) (d : DosBlock) : Prop where
  used : m.ldtInUse d.slot = true
  base : descBase m.mem (slotAddr d.slot) = d.seg * 16
  ends : ∃ n, BlockSize m d.seg n ∧ getLimit m.mem (slotAddr d.slot) < n * 16
  limit : 0 < d.paras → getLimit m.mem (slotAddr d.slot) = d.paras * 16 - 1

/-- The descriptor is as AX=0100 writes it. -/
structure Wired (m : Machine) (d : DosBlock) : Prop where
  slot : d.slot < LDT_COUNT
  used : m.ldtInUse d.slot = true
  paras : 0 < d.paras ∧ d.paras < 65536
  desc : ∃ access, DescAt m.mem (slotAddr d.slot) (d.seg * 16) (d.paras * 16 - 1) access false
  block : ∃ n, d.paras ≤ n ∧ BlockSize m d.seg n

section Wiring

variable {m r : Machine} {d : DosBlock}

theorem Wired.seg_lt (h : Wired m d) : d.seg < 65536 := by
  obtain ⟨n, -, hn⟩ := h.block
  have hb := hn.bounds
  simp only [MCB_ARENA_END] at hb
  omega

theorem Wired.dataSeg (h : Wired m d) : slotDataSeg m d.slot = d.seg := by
  obtain ⟨access, hd⟩ := h.desc
  have hlt := h.seg_lt
  have hbase : descBase m.mem (LDT_BASE + d.slot * 8) = d.seg * 16 := hd.base (by omega)
  rw [slotDataSeg, hbase]
  omega

theorem Wired.covers (h : Wired m d) : Covers m d := by
  obtain ⟨access, hd⟩ := h.desc
  obtain ⟨n, hn, hblock⟩ := h.block
  have hlt := h.seg_lt
  have hparas := h.paras
  have hlimit : getLimit m.mem (slotAddr d.slot) = d.paras * 16 - 1 :=
    hd.getLimit.trans (Nat.mod_eq_of_lt (by omega))
  refine ⟨h.used, hd.base (by omega), ⟨n, hblock, ?_⟩, fun _ => hlimit⟩
  rw [hlimit]
  omega

/-- The bytes of the descriptor, the bit of the slot and the block are all there is to it. -/
theorem Wired.frame (h : Wired m d) (hused : r.ldtInUse d.slot = m.ldtInUse d.slot)
    (hmem : ∀ k < 8, readb r.mem (slotAddr d.slot + k) = readb m.mem (slotAddr d.slot + k))
    (hblock : ∀ n, BlockSize m d.seg n → BlockSize r d.seg n) : Wired r d where
  slot := h.slot
  used := hused.trans h.used
  paras := h.paras
  desc := h.desc.imp fun _ hd k hk => (hmem k hk).trans (hd k hk)
  block := h.block.imp fun n hn => ⟨hn.1, hblock n hn.2⟩

/-- Registers do not matter. -/
theorem Wired.host (h : Wired m d) (hs : SameHost m r) : Wired r d := by
  rw [hs]
  exact h.frame rfl (fun _ _ => rfl) fun _ hn => hn.same rfl fun _ hc => hc

/-- The allocator of the chain does not reach the tables. -/
theorem slotAddr_low {mem mem' : Mem} (h : AgreesOff firstMegabyte mem mem') (slot k : Nat) :
    readb mem' (slotAddr slot + k) = readb mem (slotAddr slot + k) := by
  apply h.readb
  simp only [Set.mem_Iio, slotAddr, LDT_BASE]
  omega

/-- Another slot is written. -/
theorem slotAddr_other {mem mem' : Mem} {slot idx : Nat} (hne : slot ≠ idx)
    (h : AgreesOff (Set.Ico (slotAddr idx) (slotAddr idx + 8)) mem mem') {k : Nat} (hk : k < 8) :
    readb mem' (slotAddr slot + k) = readb mem (slotAddr slot + k) := by
  apply h.readb
  simp only [Set.mem_Ico, slotAddr]
  omega

/-- A free slot is filled. -/
theorem Wired.taken {idx base limit access : Nat} (h : Wired m d) (hfree : m.ldtInUse idx = false)
    (huse : r.ldtInUse = Function.update m.ldtInUse idx true)
    (hmem : r.mem = writeLdtDescriptor m.mem idx base limit access false)
    (hinit : r.mcbInitialised = m.mcbInitialised) : Wired r d := by
  have hne : d.slot ≠ idx := by
    intro heq
    have hused := h.used
    rw [heq, hfree] at hused
    cases hused
  have hwrite := writeLdtDescriptor_off m.mem idx base limit access false
  refine h.frame (by rw [huse, Function.update_of_ne hne]) (fun k hk => ?_) fun n hn => ?_
  · rw [hmem]
    exact slotAddr_other hne hwrite hk
  · refine hn.same hinit fun bs hc => ?_
    rw [hmem]
    exact hc.frame hwrite fun x hx => headerBytes_inside hc (ldt_outside idx 8 hx)

/-- What AX=0100 writes for a new block. -/
theorem wired_installed {idx seg paras access n : Nat} (hslot : idx < LDT_COUNT)
    (hparas : 0 < paras ∧ paras < 65536) (hblock : BlockSize m seg n) (hroom : paras ≤ n)
    (hmem : r.mem = writeLdtDescriptor m.mem idx (seg * 16) (paras * 16 - 1) access false)
    (huse : r.ldtInUse = Function.update m.ldtInUse idx true) (hinit : r.mcbInitialised = m.mcbInitialised) :
    Wired r ⟨idx, seg, paras⟩ where
  slot := hslot
  used := by
    rw [huse]
    exact Function.update_self idx true m.ldtInUse
  paras := hparas
  desc := ⟨access, by
    rw [hmem]
    exact descAt_writeLdt m.mem idx (seg * 16) (paras * 16 - 1) access false⟩
  block := by
    refine ⟨n, hroom, hblock.same hinit fun bs hc => ?_⟩
    rw [hmem]
    exact hc.frame (writeLdtDescriptor_off m.mem idx _ _ access false) fun x hx =>
      headerBytes_inside hc (ldt_outside idx 8 hx)

end Wiring

/-! ### The calls -/

section Calls

variable {m r : Machine} {cf : Bool}

theorem dosBlockSlot_some {sel idx : Nat} (h : dosBlockSlot m sel = some idx) :
    idx = sel / 8 ∧ idx < LDT_COUNT ∧ m.ldtInUse idx = true := by
  unfold dosBlockSlot at h
  split_ifs at h with hbad hbit
  have hidx : sel / 8 = idx := Option.some.inj h
  subst hidx
  have hvalid : selectorIsValid sel = true := by
    simpa using fun hv => hbad (Or.inr hv)
  have hti : sel / 4 % 2 = 1 := by
    have : ¬ sel / 4 % 2 = 0 := fun hz => hbad (Or.inl hz)
    omega
  rw [selectorIsValid, if_pos hti] at hvalid
  have hrange : 8 ≤ sel ∧ sel / 8 < LDT_COUNT := by
    simpa using hvalid
  exact ⟨rfl, hrange.2, hbit⟩

theorem mcbAllocate_cpu {need : Nat} {a : Machine × Nat × Nat} (h : mcbAllocate m need = some a) :
    a.1.cpu = m.cpu := by
  have hready : (mcbReady m).cpu = m.cpu := by
    unfold mcbReady
    split <;> rfl
  unfold mcbAllocate at h
  dsimp only at h
  split at h
  · cases h
  · cases h
    exact hready

/-- AX=0100 keeps the blocks and the descriptors, and wires a new one when it succeeds. -/
theorem int31_0100_wires (hm : MemOk m) (hcpl : m.clientCpl < 4) (h : int31_0100 m = some (r, cf)) :
    (∀ d, Wired m d → Wired r d) ∧ (cf = false → Wired r ⟨r.dx / 8, r.ax, m.bx⟩) := by
  unfold int31_0100 at h
  split at h
  · cases h
    exact ⟨fun d hd => hd.frame rfl (fun _ _ => rfl) fun _ hn => hn.same rfl fun _ hc => hc, nofun⟩
  · rename_i hbx
    rcases halloc : mcbAllocate m m.bx with _ | ⟨a, seg, largest⟩
    · rw [halloc] at h
      cases h
    · rw [halloc] at h
      obtain ⟨hkeeps, hnew⟩ := mcbAllocate_sizes hm halloc
      obtain ⟨hview, hlt⟩ := mcbAllocate_frame halloc
      have hlow : AgreesOff firstMegabyte m.mem a.mem := mcbAllocate_low halloc
      have huse : a.ldtInUse = m.ldtInUse := congrArg LdtView.inUse hview
      have hcpl' : a.clientCpl < 4 := by
        have heq : a.clientCpl = m.clientCpl := congrArg LdtView.cpl hview
        rw [heq]
        exact hcpl
      have hbxs : a.bx = m.bx := congrArg (fun c : Cpu => { a with cpu := c }.bx) (mcbAllocate_cpu halloc)
      dsimp only at h hkeeps hnew hlt
      have hgrown : ∀ d, Wired m d → Wired a d := fun d hd =>
        hd.frame (congrFun huse _) (fun k _ => slotAddr_low hlow d.slot k) (hkeeps d.seg)
      split_ifs at h with hseg hidx
      · cases h
        exact ⟨fun d hd => (hgrown d hd).frame rfl (fun _ _ => rfl) fun _ hn => hn.same rfl fun _ hc => hc, nofun⟩
      · -- the block is given back
        cases h
        obtain ⟨hfresh, n₀, -, hn₀⟩ := hnew hseg
        refine ⟨fun d hd => ?_, nofun⟩
        obtain ⟨n, -, hn⟩ := hd.block
        have hne : d.seg ≠ seg := fun heq => hfresh (heq ▸ hn.allocated)
        have hfreed := (mcbFree_sizes hn₀.allocated).2 d.seg
        have hused : (mcbFree a seg).1.ldtInUse = a.ldtInUse := congrArg LdtView.inUse (ldtView_mcbFree a seg)
        refine (hgrown d hd).frame (congrFun hused _) (fun k _ => slotAddr_low (mcbFree_low a seg) d.slot k) ?_
        intro n hn
        exact (hfreed n hne hn).same rfl fun _ hc => hc
      · cases h
        obtain ⟨hfresh, n₀, hroom, hn₀⟩ := hnew hseg
        have hfirst := ldtFindRun_firstFit a (show 0 < 1 by decide)
        have hslot : ldtFindRun a 1 < LDT_COUNT := hfirst.lt hidx (le_refl 1)
        have hfree : a.ldtInUse (ldtFindRun a 1) = false := 
          hfirst.free hidx _ (le_refl _) (Nat.lt_succ_self _)
        refine ⟨fun d hd => (hgrown d hd).taken hfree rfl rfl rfl, fun _ => ?_⟩
        have hpos : 0 < m.bx ∧ m.bx < 65536 := ⟨Nat.pos_of_ne_zero hbx, r16_lt m .ebx⟩
        have hparas : lin (a.bx * 16 + 0xFFFFFFFF) = m.bx * 16 - 1 := by
          rw [hbxs]
          simp only [lin]
          omega
        show Wired _ ⟨(Machine.setR16 (Machine.setR16 _ .eax seg) .edx (clientSelector a (ldtFindRun a 1))).r16
          .edx / 8, (Machine.setR16 (Machine.setR16 _ .eax seg) .edx (clientSelector a _)).r16 .eax, m.bx⟩
        rw [r16_clientSelector hcpl' hslot, clientSelector_slot hcpl', r16_setR16_of_ne _ _ (by decide),
          r16_setR16, Nat.mod_eq_of_lt hlt]
        exact wired_installed hslot hpos hn₀ hroom (by rw [← hparas]; rfl) rfl rfl

/-- AX=0101 is all or nothing: it frees the block and the descriptor, or fails and frees neither. -/
def FreesWhole (m r : Machine) (cf : Bool) : Prop :=
  (cf = true ∧ r.ldtInUse = m.ldtInUse ∧ r.mem = m.mem) ∨
    (cf = false ∧ ∃ idx, dosBlockSlot m m.dx = some idx ∧ AllocatedSeg m (slotDataSeg m idx) ∧
      ¬ AllocatedSeg r (slotDataSeg m idx) ∧ m.ldtInUse idx = true ∧ r.ldtInUse idx = false)

theorem SameArena.symm (h : SameArena m r) : SameArena r m where
  init := h.init.symm
  busy := h.busy.symm
  pmInit := h.pmInit.symm
  pmEnd := h.pmEnd.symm
  off := fun x hx => (h.off x hx).symm

theorem AllocatedSeg.sameArena {s : Nat} (h : AllocatedSeg m s) (hs : SameArena m r) : AllocatedSeg r s := by
  obtain ⟨n, hn⟩ := h.size
  exact (hn.sameArena hs).allocated

/-- What AX=0101 does when it succeeds. -/
theorem int31_0101_done (h : int31_0101 m = some (r, false)) : ∃ idx, dosBlockSlot m m.dx = some idx ∧
    SameArena (mcbFree m (slotDataSeg m idx)).1 r ∧ r.ldtInUse = Function.update m.ldtInUse idx false ∧
      r.mem = writeLdtDescriptor (mcbFree m (slotDataSeg m idx)).1.mem idx 0 0 0 false := by
  unfold int31_0101 at h
  rcases hslot : dosBlockSlot m m.dx with _ | idx
  · rw [hslot] at h
    cases h
  · rw [hslot] at h
    cases h
    have huse : (mcbFree m (slotDataSeg m idx)).1.ldtInUse = m.ldtInUse :=
      congrArg LdtView.inUse (ldtView_mcbFree m _)
    refine ⟨idx, rfl, ⟨rfl, rfl, rfl, rfl, ?_⟩, ?_, rfl⟩
    · exact (writeLdtDescriptor_off _ idx 0 0 0 false).mono (ldt_outside idx 8)
    · rw [← huse]
      rfl

theorem int31_0101_failed_eq (h : int31_0101 m = some (r, true)) : r = (failWith m 0x8022).1 := by
  unfold int31_0101 at h
  split at h
  · cases h
    rfl
  · cases h

/-- AX=0101 for a selector of a block. -/
theorem int31_0101_whole (hnamed : ∀ idx, dosBlockSlot m m.dx = some idx → AllocatedSeg m (slotDataSeg m idx))
    (h : int31_0101 m = some (r, cf)) : FreesWhole m r cf := by
  cases cf with
  | true =>
    rw [int31_0101_failed_eq h]
    exact Or.inl ⟨rfl, rfl, rfl⟩
  | false =>
    obtain ⟨idx, hslot, hsame, huse, -⟩ := int31_0101_done h
    have hseg := hnamed idx hslot
    refine Or.inr ⟨rfl, idx, hslot, hseg, fun hr => ?_, (dosBlockSlot_some hslot).2.2, ?_⟩
    · exact (mcbFree_sizes hseg).1 (hr.sameArena hsame.symm)
    · rw [huse]
      exact Function.update_self idx false m.ldtInUse

/-- AX=0101 leaves the blocks of other selectors. -/
theorem int31_0101_wired (hnamed : ∀ idx, dosBlockSlot m m.dx = some idx → AllocatedSeg m (slotDataSeg m idx))
    (h : int31_0101 m = some (r, cf)) {d : DosBlock} (hd : Wired m d)
    (hother : cf = false → d.slot ≠ m.dx / 8 ∧ d.seg ≠ slotDataSeg m (m.dx / 8)) : Wired r d := by
  cases cf with
  | true =>
    rw [int31_0101_failed_eq h]
    exact hd.frame rfl (fun _ _ => rfl) fun _ hn => hn.same rfl fun _ hc => hc
  | false =>
    obtain ⟨idx, hslot, hsame, huse, hmem⟩ := int31_0101_done h
    obtain ⟨rfl, -, -⟩ := dosBlockSlot_some hslot
    obtain ⟨hne, hseg⟩ := hother rfl
    have hwrite := writeLdtDescriptor_off (mcbFree m (slotDataSeg m (m.dx / 8))).1.mem (m.dx / 8) 0 0 0 false
    refine hd.frame ?_ (fun k hk => ?_) fun n hn => ?_
    · rw [huse, Function.update_of_ne hne]
    · rw [hmem]
      exact (slotAddr_other hne hwrite hk).trans (slotAddr_low (mcbFree_low m _) d.slot k)
    · exact ((mcbFree_sizes (hnamed _ hslot)).2 d.seg n hseg hn).sameArena hsame

/-- The segment of an AX=0102 selector is that of a block, or there is no header in front of it. -/
def ResizesKnown (m : Machine) (s : Nat) : Prop := NoHeader m s ∨ ∃ bs b, BlockSeg m s bs b

/-- What AX=0102 does. -/
theorem int31_0102_done (h : int31_0102 m = some (r, cf)) : (∃ regs, cf = true ∧ r = m.setR16s regs) ∨
    ∃ idx, cf = false ∧ dosBlockSlot m m.bx = some idx ∧ (mcbResize m (slotDataSeg m idx) m.dx).2.1 = m.dx ∧
      SameArena (mcbResize m (slotDataSeg m idx) m.dx).1 r ∧ r.ldtInUse = m.ldtInUse ∧
        r.mem = EditCall.edit .ax0102 m (mcbResize m (slotDataSeg m idx) m.dx).1.mem (slotAddr idx) := by
  unfold int31_0102 at h
  rcases hslot : dosBlockSlot m m.bx with _ | idx
  · rw [hslot] at h
    cases h
    exact Or.inl ⟨[(.eax, 0x8022)], rfl, rfl⟩
  · rw [hslot] at h
    dsimp only at h
    split_ifs at h with hgot
    · cases h
      rw [mcbResize_refused hgot]
      exact Or.inl ⟨_, rfl, rfl⟩
    · cases h
      refine Or.inr ⟨idx, rfl, rfl, not_not.mp hgot, ⟨rfl, rfl, rfl, rfl, ?_⟩, ?_, rfl⟩
      · have hin : ∀ i, i < 8 → Set.Ico (LDT_BASE + idx * 8 + i) (LDT_BASE + idx * 8 + i + 1) ⊆ outsideArena :=
          fun i hi => (Set.Ico_subset_Ico (by omega) (by omega)).trans (ldt_outside idx 8)
        exact (((writeb_off _ _ _).mono (hin 0 (by decide))).trans
          ((writeb_off _ _ _).mono (hin 1 (by decide)))).trans ((writeb_off _ _ _).mono (hin 6 (by decide)))
      · exact congrArg LdtView.inUse (ldtView_mcbResize m _ _)

/-- The edit writes the limit of the descriptor. -/
theorem resized_descAt {mem : Mem} {p base limit access : Nat} (h : DescAt mem p base limit access false)
    (hpos : m.dx ≠ 0) : DescAt (EditCall.edit .ax0102 m mem p) p base (m.dx * 16 - 1) access false := by
  have hlt : m.dx < 65536 := r16_lt m .edx
  have hlin : lin (m.dx * 16 + 0xFFFFFFFF) = m.dx * 16 - 1 := by
    simp only [lin]
    omega
  have h₆ := h 6 (by decide)
  simp only [descriptorBytes, List.getD_cons_succ, List.getD_cons_zero, Bool.false_eq_true, if_false] at h₆
  intro k hk
  have hold := h k hk
  simp only [EditCall.edit, hlin]
  interval_cases k <;>
    simp (disch := omega) only [Nat.add_zero, readb_writeb, readb_writeb_of_ne, descriptorBytes,
      List.getD_cons_succ, List.getD_cons_zero, Bool.false_eq_true, if_false] at hold ⊢ <;> omega

theorem resized_off (m : Machine) (mem : Mem) (p : Nat) :
    AgreesOff (Set.Ico p (p + 8)) mem (EditCall.edit .ax0102 m mem p) := by
  have hin : ∀ i, i < 8 → Set.Ico (p + i) (p + i + 1) ⊆ Set.Ico p (p + 8) := fun i hi =>
    Set.Ico_subset_Ico (by omega) (by omega)
  exact (((writeb_off _ _ _).mono (hin 0 (by decide))).trans
    ((writeb_off _ _ _).mono (hin 1 (by decide)))).trans ((writeb_off _ _ _).mono (hin 6 (by decide)))

theorem mcbResize_known (hm : MemOk m) {s : Nat} (hs : ResizesKnown m s) (n : Nat) :
    MemOk (mcbResize m s n).1 ∧
      ∀ t size, t ≠ s → BlockSize m t size → BlockSize (mcbResize m s n).1 t size := by
  rcases hs with hs | ⟨bs, b, hb⟩
  · rw [mcbResize_noHeader hs]
    exact ⟨hm, fun _ _ _ hn => hn⟩
  · exact ⟨(mcbResize_holds hm hb n).ok, mcbResize_others hb n⟩

theorem MemOk.sameArena (h : MemOk m) (hs : SameArena m r) : MemOk r := ((Preserves.refl h).same hs).1

theorem int31_0102_memOk (hm : MemOk m) (hknown : ∀ idx, dosBlockSlot m m.bx = some idx →
    ResizesKnown m (slotDataSeg m idx)) (h : int31_0102 m = some (r, cf)) : MemOk r := by
  rcases int31_0102_done h with ⟨regs, -, rfl⟩ | ⟨idx, -, hslot, -, hsame, -, -⟩
  · exact ((Preserves.refl hm).regs regs).1
  · exact (mcbResize_known hm (hknown idx hslot) m.dx).1.sameArena hsame

/-- The new size of the block in the slot. -/
def DosBlock.resize (slot paras : Nat) (d : DosBlock) : DosBlock :=
  if d.slot = slot then { d with paras := paras } else d

/-- AX=0102 with a size other than 0 keeps the descriptors, that of its block with the new size. -/
theorem int31_0102_wired (hm : MemOk m) (hknown : ∀ idx, dosBlockSlot m m.bx = some idx →
    ResizesKnown m (slotDataSeg m idx)) (h : int31_0102 m = some (r, false)) {d : DosBlock} (hd : Wired m d)
    (hother : d.seg = slotDataSeg m (m.bx / 8) → d.slot = m.bx / 8) (hsize : d.slot = m.bx / 8 → m.dx ≠ 0) :
    Wired r (d.resize (m.bx / 8) m.dx) := by
  rcases int31_0102_done h with ⟨regs, hcf, -⟩ | ⟨idx, -, hslot, hgot, hsame, huse, hmem⟩
  · cases hcf
  · obtain ⟨rfl, -, -⟩ := dosBlockSlot_some hslot
    have hlow := mcbResize_low m (slotDataSeg m (m.bx / 8)) m.dx
    have hedit := resized_off m (mcbResize m (slotDataSeg m (m.bx / 8)) m.dx).1.mem (slotAddr (m.bx / 8))
    by_cases hsel : d.slot = m.bx / 8
    · -- the block itself
      have hne := hsize hsel
      have hseg : slotDataSeg m (m.bx / 8) = d.seg := by
        rw [← hsel]
        exact hd.dataSeg
      obtain ⟨n, -, hn⟩ := hd.block
      rw [hseg] at hgot hsame hlow hmem
      obtain ⟨n', hroom, hn'⟩ := mcbResize_grown hn.allocated hgot
      obtain ⟨access, hdesc⟩ := hd.desc
      have hkept : DescAt (mcbResize m d.seg m.dx).1.mem (slotAddr d.slot) (d.seg * 16) (d.paras * 16 - 1)
          access false := fun k hk => (slotAddr_low hlow d.slot k).trans (hdesc k hk)
      rw [DosBlock.resize, if_pos hsel]
      refine ⟨hd.slot, ?_, ⟨Nat.pos_of_ne_zero hne, r16_lt m .edx⟩, ⟨access, ?_⟩, n', hroom, hn'.sameArena hsame⟩
      · rw [huse]
        exact hd.used
      · rw [hmem, ← hsel]
        exact resized_descAt hkept hne
    · have hseg : d.seg ≠ slotDataSeg m (m.bx / 8) := fun heq => hsel (hother heq)
      rw [DosBlock.resize, if_neg hsel]
      refine hd.frame (congrFun huse _) (fun k hk => ?_) fun n hn => ?_
      · rw [hmem]
        exact (slotAddr_other hsel hedit hk).trans (slotAddr_low hlow d.slot k)
      · exact ((mcbResize_known hm (hknown _ hslot) m.dx).2 d.seg n hseg hn).sameArena hsame

/-- A block resized to 0 paragraphs: its descriptor has a limit past the end of the arena. -/
theorem int31_0102_zero {d : DosBlock} (hd : Wired m d) (hslot : m.bx / 8 = d.slot) (hdx : m.dx = 0)
    (h : int31_0102 m = some (r, false)) : ¬ Covers r (d.resize (m.bx / 8) m.dx) := by
  rcases int31_0102_done h with ⟨regs, hcf, -⟩ | ⟨idx, -, hidx, -, -, -, hmem⟩
  · cases hcf
  · obtain ⟨rfl, -, -⟩ := dosBlockSlot_some hidx
    intro hcov
    obtain ⟨n, hn, hends⟩ := hcov.ends
    have hb := hn.bounds
    obtain ⟨access, hdesc⟩ := hd.desc
    have hlow := mcbResize_low m (slotDataSeg m (m.bx / 8)) m.dx
    have h₆ := hdesc 6 (by decide)
    simp only [descriptorBytes, List.getD_cons_succ, List.getD_cons_zero, Bool.false_eq_true, if_false] at h₆
    rw [← slotAddr_low hlow d.slot 6, hslot] at h₆
    have hlin : lin (m.dx * 16 + 0xFFFFFFFF) = 0xFFFFFFFF := by
      rw [hdx]
      rfl
    have hlimit : getLimit r.mem (slotAddr (d.resize (m.bx / 8) m.dx).slot) = 0xFFFFF := by
      rw [DosBlock.resize, if_pos hslot.symm, hmem, hslot]
      simp (disch := omega) only [getLimit, descLimit, EditCall.edit, hlin, readb_writeb, readb_writeb_of_ne]
      rw [if_neg (by omega)]
      omega
    rw [hlimit] at hends
    simp only [MCB_ARENA_START, MCB_ARENA_END] at hb
    omega

end Calls

/-! ### Runs -/

/-- The three services. -/
inductive BlockCall where
  | ax0100 | ax0101 | ax0102
deriving DecidableEq, Repr

def BlockCall.serve : BlockCall → Machine → Reply
  | .ax0100 => int31_0100
  | .ax0101 => int31_0101
  | .ax0102 => int31_0102

/-- The machine, and the blocks that are live. -/
structure DosBlocks where
  m : Machine
  live : List DosBlock

/-- The client runs, or makes one of the calls. -/
inductive DosBlockEvent where
  | guest (cpu : Cpu) (mem : Mem)
  | call (c : BlockCall)

/-- What a call that succeeds does to the list of live blocks. -/
def BlockCall.track (c : BlockCall) (m r : Machine) (live : List DosBlock) : List DosBlock :=
  match c with
  | .ax0100 => ⟨r.dx / 8, r.ax, m.bx⟩ :: live
  | .ax0101 => live.filter fun d => d.slot ≠ m.dx / 8
  | .ax0102 => live.map (DosBlock.resize (m.bx / 8) m.dx)

def dosBlockStep (s : DosBlocks) : DosBlockEvent → DosBlocks → Prop
  | .guest cpu mem, t => t = ⟨{ s.m with cpu := cpu, mem := mem }, s.live⟩
  | .call c, t => ∃ r cf, c.serve s.m = some (r, cf) ∧
      t = ⟨setCf r cf, if cf then s.live else c.track s.m r s.live⟩

/-- Memory is changed off the chain's headers and off the LDT only. -/
def OffTables (m : Machine) (mem : Mem) : Prop :=
  (m.mcbInitialised = true → ∀ bs, Chain m.mem bs → ∀ x ∈ headerBytes bs, mem x = m.mem x) ∧
    ∀ x, LDT_BASE ≤ x → x < LDT_BASE + LDT_BYTES → mem x = m.mem x

/-- The client leaves headers and descriptors to the host, and has its stack elsewhere. -/
def Behaved (s : DosBlocks) : DosBlockEvent → Prop
  | .guest _ mem => OffTables s.m mem
  | .call c => ∀ r cf, c.serve s.m = some (r, cf) → OffTables r (setCf r cf).mem

/-- AX=0101 and AX=0102 are refused, or the selector they get is that of a block that no other live
    selector has; and AX=0102 does not ask for 0 paragraphs. -/
def Named (s : DosBlocks) : DosBlockEvent → Prop
  | .guest _ _ => True
  | .call .ax0100 => True
  | .call .ax0101 => ∀ idx, dosBlockSlot s.m s.m.dx = some idx → AllocatedSeg s.m (slotDataSeg s.m idx) ∧
      ∀ d ∈ s.live, d.seg = slotDataSeg s.m idx → d.slot = idx
  | .call .ax0102 => ∀ idx, dosBlockSlot s.m s.m.bx = some idx → ResizesKnown s.m (slotDataSeg s.m idx) ∧
      (∀ d ∈ s.live, d.seg = slotDataSeg s.m idx → d.slot = idx) ∧
        ((∃ d ∈ s.live, d.slot = idx) → s.m.dx ≠ 0)

/-- Every live selector covers its block. -/
def DosBlocks.Right (s : DosBlocks) : Prop := ∀ d ∈ s.live, Covers s.m d

/-- No block has been given out yet. -/
structure DosBlocks.Begins (s : DosBlocks) : Prop where
  mem : MemOk s.m
  cpl : s.m.clientCpl < 4
  live : s.live = []

/-- The invariant. -/
structure DosBlocks.Ok (s : DosBlocks) : Prop where
  mem : MemOk s.m
  cpl : s.m.clientCpl < 4
  wired : ∀ d ∈ s.live, Wired s.m d

section Runs

variable {s t : DosBlocks} {m : Machine} {live : List DosBlock}

theorem DosBlocks.Ok.right (h : s.Ok) : s.Right := fun d hd => (h.wired d hd).covers

/-- Off the tables nothing matters. -/
theorem DosBlocks.Ok.offTables (h : DosBlocks.Ok ⟨m, live⟩) {cpu : Cpu} {mem : Mem} (hoff : OffTables m mem) :
    DosBlocks.Ok ⟨{ m with cpu := cpu, mem := mem }, live⟩ := by
  have hchain : m.mcbInitialised = true → ∀ bs, Chain m.mem bs → Chain mem bs := by
    intro hi bs hc
    refine hc.frame (S := { x | mem x ≠ m.mem x }) (fun x hx => ?_) fun x hx hb => hx (hoff.1 hi bs hc x hb)
    by_contra hne
    exact hx hne
  refine ⟨⟨⟨h.mem.pm.packed, h.mem.pm.high, h.mem.pm.fresh⟩, fun hi => ?_⟩, h.cpl, fun d hd => ?_⟩
  · obtain ⟨bs, hc⟩ := h.mem.chain hi
    exact ⟨bs, hchain hi bs hc⟩
  · have hwired : Wired m d := h.wired d hd
    have hslot := hwired.slot
    refine Wired.frame (m := m) hwired rfl (fun k hk => ?_) fun n hn => ?_
    · refine congrArg UInt8.toNat (hoff.2 (slotAddr d.slot + k) ?_ ?_) <;>
        simp only [slotAddr, LDT_COUNT, LDT_BYTES] at hslot ⊢ <;> omega
    · exact BlockSize.same (m := m) rfl (hchain hn.1) hn

theorem serve_cpl {f : Machine → Reply} {r : Machine} {cf : Bool} (h : m.clientCpl < 4)
    (hf : Answers ServiceFrame f) (hr : f m = some (r, cf)) : r.clientCpl < 4 := by
  have heq : r.clientCpl = m.clientCpl := congrArg ProcessGlobals.clientCpl (hf m (r, cf) hr)
  rw [heq]
  exact h

/-- Every call keeps the invariant. -/
theorem serve_ok (h : s.Ok) {c : BlockCall} (hn : Named s (.call c)) {r : Machine} {cf : Bool}
    (hr : c.serve s.m = some (r, cf)) : DosBlocks.Ok ⟨r, if cf then s.live else c.track s.m r s.live⟩ := by
  cases c with
  | ax0100 =>
    obtain ⟨hold, hnew⟩ := int31_0100_wires h.mem h.cpl hr
    obtain ⟨r', hr', hp⟩ := int31_0100_preserves h.mem
    obtain rfl : (r, cf) = r' := Option.some.inj (hr.symm.trans hr')
    refine ⟨hp.1, serve_cpl h.cpl int31_0100_frame hr, fun d hd => ?_⟩
    cases cf with
    | true => exact hold d (h.wired d hd)
    | false =>
      rcases List.mem_cons.mp hd with rfl | hd
      · exact hnew rfl
      · exact hold d (h.wired d hd)
  | ax0101 =>
    have hnamed : ∀ idx, dosBlockSlot s.m s.m.dx = some idx → AllocatedSeg s.m (slotDataSeg s.m idx) :=
      fun idx hslot => (hn idx hslot).1
    obtain ⟨r', hr', hp⟩ := int31_0101_preserves h.mem hnamed
    obtain rfl : (r, cf) = r' := Option.some.inj (hr.symm.trans hr')
    refine ⟨hp.1, serve_cpl h.cpl int31_0101_frame hr, fun d hd => ?_⟩
    cases cf with
    | true => exact int31_0101_wired hnamed hr (h.wired d hd) nofun
    | false =>
      obtain ⟨hlive, hne⟩ := List.mem_filter.mp hd
      have hne : d.slot ≠ s.m.dx / 8 := by
        simpa using hne
      refine int31_0101_wired hnamed hr (h.wired d hlive) fun _ => ⟨hne, fun hseg => hne ?_⟩
      obtain ⟨idx, hslot, -⟩ := int31_0101_done hr
      obtain ⟨rfl, -, -⟩ := dosBlockSlot_some hslot
      exact (hn _ hslot).2 d hlive hseg
  | ax0102 =>
    have hknown : ∀ idx, dosBlockSlot s.m s.m.bx = some idx → ResizesKnown s.m (slotDataSeg s.m idx) :=
      fun idx hslot => (hn idx hslot).1
    refine ⟨int31_0102_memOk h.mem hknown hr, serve_cpl h.cpl int31_0102_frame hr, fun d hd => ?_⟩
    cases cf with
    | true =>
      rcases int31_0102_done hr with ⟨regs, -, rfl⟩ | ⟨idx, hcf, -⟩
      · exact (h.wired d hd).host (sameHost_setR16s s.m regs)
      · cases hcf
    | false =>
      obtain ⟨d₀, hlive, rfl⟩ := List.mem_map.mp hd
      rcases int31_0102_done hr with ⟨regs, hcf, -⟩ | ⟨idx, -, hslot, -⟩
      · cases hcf
      · obtain ⟨rfl, -, -⟩ := dosBlockSlot_some hslot
        obtain ⟨-, hother, hsize⟩ := hn _ hslot
        exact int31_0102_wired h.mem hknown hr (h.wired d₀ hlive) (hother d₀ hlive) fun hsel =>
          hsize ⟨d₀, hlive, hsel⟩

theorem dosBlockStep_ok (h : s.Ok) {e : DosBlockEvent} (he : Behaved s e ∧ Named s e) (hs : dosBlockStep s e t) :
    t.Ok := by
  cases e with
  | guest cpu mem =>
    cases hs
    exact h.offTables he.1
  | call c =>
    obtain ⟨r, cf, hr, rfl⟩ := hs
    exact DosBlocks.Ok.offTables (serve_ok h he.2 hr) (he.1 r cf hr)

/-- **Blocks and selectors go together.** -/
theorem dosBlocks_right {s₀ : DosBlocks} {es : List DosBlockEvent} (h₀ : s₀.Begins)
    (hrun : Guarded dosBlockStep (fun s e => Behaved s e ∧ Named s e) s₀ es s) : s.Right ∧
      ∀ r cf, Named s (.call .ax0101) → int31_0101 s.m = some (r, cf) → FreesWhole s.m r cf := by
  have hstart : s₀.Ok := ⟨h₀.mem, h₀.cpl, fun d hd => by
    rw [h₀.live] at hd
    cases hd⟩
  have hok : s.Ok := hrun.invariant (fun _ _ _ h hg hs => dosBlockStep_ok h hg hs) hstart
  exact ⟨hok.right, fun r cf hn hr => int31_0101_whole (fun idx hslot => (hn idx hslot).1) hr⟩

end Runs

/-! ### A block and a selector without one -/

theorem offTables_setCf {r : Machine} (h : flagsAddr r < MCB_ARENA_START * 16) (cf : Bool) :
    OffTables r (setCf r cf).mem := by
  have hoff := setCf_off r cf
  simp only [MCB_ARENA_START] at h
  constructor
  · rintro - bs - x ⟨q, b, hq, hle, -⟩
    have hlow := (place_bounds hq).1
    simp only [MCB_ARENA_START] at hlow
    apply hoff
    rw [Set.mem_singleton_iff]
    omega
  · intro x hx _
    simp only [LDT_BASE] at hx
    apply hoff
    rw [Set.mem_singleton_iff]
    omega

/-- A client that asks for 16 paragraphs. -/
def blockAsked : DosBlocks := ⟨{ bootMachine with cpu := arenaCpu 0x10 0 }, []⟩

theorem blockAsked_begins : blockAsked.Begins where
  mem := ⟨⟨Extents.Packed.nil, by decide, fun _ => rfl⟩, fun h => absurd h (by decide)⟩
  cpl := by decide
  live := rfl

theorem dosBlocks_right_asked : ∃ s, s.Right ∧ s.live.length = 1 ∧
    ∀ r cf, Named s (.call .ax0101) → int31_0101 s.m = some (r, cf) → FreesWhole s.m r cf := by
  have hserve : (int31_0100 blockAsked.m).map (fun r => (r.2, flagsAddr r.1)) = some (false, 4) := by
    decide +kernel
  obtain ⟨⟨r, cf⟩, hr, heq⟩ := Option.map_eq_some_iff.mp hserve
  obtain ⟨rfl, hflags⟩ := Prod.mk.inj heq
  have hbehaved : Behaved blockAsked (.call .ax0100) := by
    intro r' cf' hr'
    obtain ⟨rfl, rfl⟩ := Prod.mk.inj (Option.some.inj (hr.symm.trans hr'))
    refine offTables_setCf ?_ _
    rw [hflags]
    decide
  have hstep : dosBlockStep blockAsked (.call .ax0100)
      ⟨setCf r false, BlockCall.track .ax0100 blockAsked.m r []⟩ := ⟨r, false, hr, rfl⟩
  obtain ⟨hright, hwhole⟩ := dosBlocks_right blockAsked_begins (.cons ⟨hbehaved, trivial⟩ hstep (.nil _))
  exact ⟨_, hright, rfl, hwhole⟩

/-- A client with a descriptor of its own, which AX=0000 has given it. -/
def bareClient : Machine :=
  { installLdt bootMachine 1 0 0 0x92 with
    cpu := { zeroCpu with regs := Function.update zeroCpu.regs .edx 0x0C } }

/-- AX=0101 frees that descriptor, and no block. -/
theorem bare_selector_freed : ¬ ∀ (s₀ s : DosBlocks) (es : List DosBlockEvent), s₀.Begins →
    Guarded dosBlockStep Behaved s₀ es s →
      s.Right ∧ ∀ r cf, int31_0101 s.m = some (r, cf) → FreesWhole s.m r cf := by
  intro h
  have hbegins : DosBlocks.Begins ⟨bareClient, []⟩ :=
    ⟨⟨⟨Extents.Packed.nil, by decide, fun _ => rfl⟩, fun h => absurd h (by decide)⟩, by decide, rfl⟩
  have hserve : (int31_0101 bareClient).map (·.2) = some false := by
    decide +kernel
  obtain ⟨⟨r, cf⟩, hr, rfl⟩ := Option.map_eq_some_iff.mp hserve
  rcases (h _ _ [] hbegins (.nil _)).2 r false hr with ⟨hcf, -⟩ | ⟨-, idx, hslot, hseg, -⟩
  · cases hcf
  · have hone : dosBlockSlot bareClient bareClient.dx = some 1 := by
      decide +kernel
    obtain rfl : 1 = idx := Option.some.inj (hone.symm.trans hslot)
    have hbase : slotDataSeg bareClient 1 = 0 := by
      decide +kernel
    have hbounds := hseg.bounds
    simp only [hbase] at hbounds
    exact absurd hbounds.1 (by decide)

end Dosiz
