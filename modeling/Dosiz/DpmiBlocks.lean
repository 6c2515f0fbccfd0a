/-
  Dosiz/DpmiBlocks.lean
  =====================
  **The DPMI memory blocks over whole runs.**

  A DPMI handle SI:DI names a block of one of the two arenas: SI = 0 and the data
  segment of an MCB block, or the linear address of a block above 1 MB.  A call that
  succeeds is `Sound` when the block behind its handle has the size asked for, lies in
  its arena and is clear of every other live block.  AX=0501 and AX=0502 are sound for
  every size.  AX=0503 is sound exactly while its arithmetic stays in 32 bits
  (`InRange`): `pm_resize` does not test `base + new_rounded`, and rounding a size to
  paragraphs wraps to 0.
-/
import Dosiz.ArenaSafety

namespace Dosiz

open ByteMemory BlockChain Machine Mcb PmArena Extents Transition

/-! ### Live blocks and handles -/

/-- The data of an MCB block, in linear memory. -/
def blockExtent (q : Nat) (b : Block Nat) : Extent := ⟨(q + 1) * 16, b.size * 16⟩

/-- `e` is an allocated block of the MCB arena. -/
def DosLive (m : Machine) (e : Extent) : Prop :=
  m.mcbInitialised = true ∧ ∃ bs q b, Chain m.mem bs ∧ Allocated bs q b ∧ e = blockExtent q b

/-- The handle SI:DI names a live block, and the block has room for `size` bytes. -/
def Room (m : Machine) (si di size : Nat) : Prop :=
  if si = 0 then
    m.mcbInitialised = true ∧ ∃ bs q b, Chain m.mem bs ∧ Allocated bs q b ∧ di = q + 1 ∧
      size ≤ b.size * 16
  else ∃ e ∈ m.pmBusy, e.base = si * 65536 + di ∧ size ≤ e.size

/-- A block of the MCB arena that is where it should be. -/
structure DosBacks (m : Machine) (e : Extent) : Prop where
  live : DosLive m e
  low : MCB_ARENA_START * 16 ≤ e.base
  high : e.stop ≤ MCB_ARENA_END * 16
  apart : ∀ f, DosLive m f → f ≠ e → Apart e f
  apart_pm : ∀ f ∈ m.pmBusy, Apart e f

/-- A block of the protected-mode arena that is where it should be. -/
structure PmBacks (m : Machine) (e : Extent) : Prop where
  low : PM_ARENA_START ≤ e.base
  high : e.stop ≤ m.pmEnd
  apart : ∃ pre post, m.pmBusy = pre ++ e :: post ∧ ∀ f ∈ pre ++ post, Apart e f
  apart_dos : ∀ f, DosLive m f → Apart e f

/-- The block behind the handle SI:DI has at least `size` bytes, lies in its arena and is
    disjoint from every other live block. -/
def Behind (m : Machine) (si di size : Nat) : Prop :=
  if si = 0 then ∃ e, DosBacks m e ∧ e.base = di * 16 ∧ size ≤ e.size
  else ∃ e, PmBacks m e ∧ e.base = si * 65536 + di ∧ size ≤ e.size

theorem DosLive.bounds {m : Machine} {e : Extent} (h : DosLive m e) :
    MCB_ARENA_START * 16 ≤ e.base ∧ e.stop ≤ MCB_ARENA_END * 16 := by
  obtain ⟨-, bs, q, b, hc, ha, rfl⟩ := h
  have hb := place_bounds ha.1
  have ht := hc.tiles
  simp only [blockExtent, Extent.stop]
  omega

/-- The two arenas do not meet. -/
theorem apart_arenas {m : Machine} (hp : PmOk m) {e f : Extent} (he : DosLive m e)
    (hf : f ∈ m.pmBusy) : Apart e f := by
  have h₁ := he.bounds.2
  have h₂ := (hp.packed.fits f hf).low
  simp only [MCB_ARENA_END, PM_ARENA_START] at h₁ h₂
  exact Or.inl (by omega)

theorem dosBacks_of_live {m : Machine} (hm : MemOk m) {e : Extent} (he : DosLive m e) :
    DosBacks m e where
  live := he
  low := he.bounds.1
  high := he.bounds.2
  apart f hf hne := by
    obtain ⟨-, bs, q, b, hc, ha, rfl⟩ := he
    obtain ⟨-, bs', q', b', hc', ha', rfl⟩ := hf
    obtain rfl := hc'.unique hc
    simp only [Apart, blockExtent, Extent.stop]
    rcases place_disjoint ha.1 ha'.1 with h | h | h
    · exact absurd (by rw [h.1, h.2]) hne
    · exact Or.inl (by omega)
    · exact Or.inr (by omega)
  apart_pm f hf := apart_arenas hm.pm he hf

theorem pmBacks_of_mem {m : Machine} (hm : MemOk m) {e : Extent} (he : e ∈ m.pmBusy) :
    PmBacks m e where
  low := (hm.pm.packed.fits e he).low
  high := (hm.pm.packed.fits e he).high
  apart := by
    obtain ⟨pre, post, hsplit⟩ := List.append_of_mem he
    have hp := hm.pm.packed
    rw [hsplit] at hp
    exact ⟨pre, post, hsplit, hp.apart_mid⟩
  apart_dos f hf := (apart_arenas hm.pm hf he).symm

/-- In a good state it is enough that the block is there and large enough. -/
theorem Room.behind {m : Machine} (hm : MemOk m) {si di size : Nat} (h : Room m si di size) :
    Behind m si di size := by
  unfold Room at h
  unfold Behind
  split_ifs at h ⊢
  · obtain ⟨hi, bs, q, b, hc, ha, rfl, hs⟩ := h
    exact ⟨blockExtent q b, dosBacks_of_live hm ⟨hi, bs, q, b, hc, ha, rfl⟩, rfl, hs⟩
  · obtain ⟨e, he, hb, hs⟩ := h
    exact ⟨e, pmBacks_of_mem hm he, hb, hs⟩

theorem Room.mono {m : Machine} {si di s s' : Nat} (h : Room m si di s) (hs : s' ≤ s) :
    Room m si di s' := by
  unfold Room at *
  split_ifs at h ⊢
  · obtain ⟨hi, bs, q, b, hc, ha, hd, hb⟩ := h
    exact ⟨hi, bs, q, b, hc, ha, hd, hs.trans hb⟩
  · obtain ⟨e, he, hb, hb'⟩ := h
    exact ⟨e, he, hb, hs.trans hb'⟩

theorem room_of_sameHost {m m' : Machine} (h : SameHost m m') (si di size : Nat) :
    Room m' si di size ↔ Room m si di size := by
  rw [h]
  exact Iff.rfl

theorem allocatedSeg_of_room {m : Machine} {si di size : Nat} (hsi : si = 0)
    (h : Room m si di size) : AllocatedSeg m di := by
  rw [Room, if_pos hsi] at h
  obtain ⟨hi, bs, q, b, hc, ha, hd, -⟩ := h
  exact ⟨hi, bs, q, b, hc, ha, hd⟩

/-! ### The calls -/

/-- The block argument of a call, where it takes one, is live. -/
def MemCall.Live (m : Machine) : MemCall → Prop
  | .ax0502 | .ax0503 => Room m m.si m.di 0
  | c => c.ArgOk m

/-- The sums a resize computes from the handle and the size stay below 2^32. -/
def MemCall.InRange (m : Machine) : MemCall → Prop
  | .ax0503 =>
    if m.si = 0 then sizeArg m ≤ 0xFFFFFFF0 ∨ MCB_ARENA_END ≤ m.di
    else handleArg m + pmRoundUp (sizeArg m) < 4294967296
  | _ => True

/-- What a DPMI memory call that succeeds from `m` to `m'` should have done. -/
def Sound (m m' : Machine) : MemCall → Prop
  | .ax0501 => Behind m' m'.si m'.di (sizeArg m)
  | .ax0502 => ¬ Room m' m.si m.di 0
  | .ax0503 => Behind m' m.si m.di (sizeArg m)
  | _ => True

theorem sizeArg_le_paras {m : Machine} (h : sizeArg m ≤ 0xFFFFFFF0) :
    sizeArg m ≤ bytesToParas (sizeArg m) * 16 := by
  simp only [bytesToParas, lin]
  omega

theorem setCf_chain {m : Machine} {c : MemCall} {r : Machine × Bool} (hr : c.serve m = some r)
    (hclear : FlagsClear m c) (hi : r.1.mcbInitialised = true) {bs : List (Block Nat)}
    (hc : Chain r.1.mem bs) : Chain (setCf r.1 r.2).mem bs :=
  hc.frame (setCf_off r.1 r.2) fun x hx => by
    rw [Set.mem_singleton_iff.mp hx]
    exact hclear r bs hr hi hc

theorem memOk_setCf {m : Machine} {c : MemCall} {r : Machine × Bool} (hr : c.serve m = some r)
    (hclear : FlagsClear m c) (hok : MemOk r.1) : MemOk (setCf r.1 r.2) where
  pm := ⟨hok.pm.packed, hok.pm.high, hok.pm.fresh⟩
  chain hi := by
    obtain ⟨bs, hc⟩ := hok.chain hi
    exact ⟨bs, setCf_chain hr hclear hi hc⟩

/-- Away from the headers `set_cf` does not matter to a handle. -/
theorem room_setCf {m : Machine} {c : MemCall} {r : Machine × Bool} (hr : c.serve m = some r)
    (hclear : FlagsClear m c) (hok : MemOk r.1) (si di size : Nat) :
    Room (setCf r.1 r.2) si di size ↔ Room r.1 si di size := by
  unfold Room
  split_ifs
  · constructor
    · rintro ⟨hi, bs, q, b, hc, ha, hd, hs⟩
      obtain ⟨bs', hc'⟩ := hok.chain hi
      obtain rfl := hc.unique (setCf_chain hr hclear hi hc')
      exact ⟨hi, bs, q, b, hc', ha, hd, hs⟩
    · rintro ⟨hi, bs, q, b, hc, ha, hd, hs⟩
      exact ⟨hi, bs, q, b, setCf_chain hr hclear hi hc, ha, hd, hs⟩
  · exact Iff.rfl

/-- AX=0501 hands out a block of the size asked for. -/
theorem int31_0501_room {m : Machine} (hm : MemOk m) {r : Machine × Bool}
    (hr : int31_0501 m = some r) (hok : r.2 = false) : Room r.1 r.1.si r.1.di (sizeArg m) := by
  unfold int31_0501 at hr
  dsimp only at hr
  by_cases h0 : sizeArg m = 0
  · rw [if_pos h0] at hr
    obtain rfl := Option.some.inj hr
    cases hok
  rw [if_neg h0] at hr
  obtain ⟨hp, -, -⟩ := pmAlloc_preserves hm (sizeArg_lt m)
  obtain ⟨-, hcase⟩ := pmAlloc_spec hm.pm (sizeArg_lt m)
  split_ifs at hr with hlin hparas
  · -- a block above 1 MB
    rcases hcase with ⟨hz, -, -⟩ | ⟨e, hbase, hsize, -, hperm, hfit, -⟩
    · exact absurd hz hlin
    obtain rfl := Option.some.inj hr
    have hlow := hfit.low
    have hhigh := hfit.high
    have hend := hp.1.pm.high
    simp only [PM_ARENA_START] at hlow
    simp only [Extent.stop] at hhigh
    rw [room_of_sameHost (sameHost_setR16s _ _), Room]
    simp only [setR16s, List.foldl, si, di, r16_setR16, ne_eq, reduceCtorEq, not_false_eq_true,
      r16_setR16_of_ne]
    rw [hbase, if_neg (by omega)]
    exact ⟨e, hperm.mem_iff.mpr (by simp), by omega, hsize⟩
  · -- a block of the MCB arena
    obtain ⟨mem, seg, largest, bs', halloc, hc', -, hnew⟩ := mcbAllocate_spec hp.1
      (bytesToParas (sizeArg m))
    rw [halloc] at hr
    dsimp only at hr
    split_ifs at hr with hseg
    · obtain rfl := Option.some.inj hr
      obtain ⟨b, hb, hneed, hlo, hhi, -⟩ := hnew hseg
      rw [room_of_sameHost (sameHost_setR16s _ _), Room]
      simp only [setR16s, List.foldl, si, di, r16_setR16, ne_eq, reduceCtorEq, not_false_eq_true,
        r16_setR16_of_ne]
      rw [if_pos trivial]
      have hle : sizeArg m ≤ 0xFFFFFFF0 := by
        have := sizeArg_lt m
        have h₁ := hparas.1
        simp only [bytesToParas, lin] at h₁
        omega
      have hparas := sizeArg_le_paras hle
      refine ⟨?_, bs', seg - 1, b, hc', hb, by omega, hparas.trans (Nat.mul_le_mul_right 16 hneed)⟩
      rcases mcbReady_cases (pmAlloc m (sizeArg m)).1 with ⟨hi, hr⟩ | ⟨-, hr⟩ <;> rw [hr]
      exact hi
    · obtain rfl := Option.some.inj hr
      cases hok
  · obtain rfl := Option.some.inj hr
    cases hok

/-- AX=0502 takes the block off the live ones. -/
theorem int31_0502_gone {m : Machine} (hm : MemOk m) (hlive : Room m m.si m.di 0) :
    ∃ r, int31_0502 m = some r ∧ Preserves m r.1 ∧ (r.2 = false → ¬ Room r.1 m.si m.di 0) := by
  by_cases hsi : m.si = 0
  · have hs := allocatedSeg_of_room hsi hlive
    obtain ⟨mem, bs', hfree, hc', hk⟩ := mcbFree_spec hs
    obtain ⟨r, hr, hp⟩ := int31_0502_preserves hm ⟨hsi, hs⟩
    refine ⟨r, hr, hp, fun hok hroom => ?_⟩
    unfold int31_0502 at hr
    rw [if_pos hsi, hfree] at hr
    split_ifs at hr
    · obtain rfl := Option.some.inj hr
      cases hok
    · obtain rfl := Option.some.inj hr
      rw [Room, if_pos hsi] at hroom
      obtain ⟨-, bs₂, q, b, hc₂, ha, hd, -⟩ := hroom
      obtain ⟨hi, bs, -, -, hc, -⟩ := hs
      obtain rfl := hc₂.unique hc'
      exact ((hk bs hc).2 q b |>.mp ha).2 (by omega)
  · unfold int31_0502
    rw [if_neg hsi]
    dsimp only
    have hp : Preserves m (pmFree m (handleArg m)).1 :=
      ⟨⟨pmFree_ok hm.pm _, hm.chain⟩, (Preserves.refl hm).2⟩
    split_ifs with hfree
    · refine ⟨_, rfl, hp, fun _ hroom => ?_⟩
      rw [Room, if_neg hsi] at hroom
      obtain ⟨e, he, hb, -⟩ := hroom
      exact pmFree_gone hm.pm (handleArg m) e he hb
    · exact ⟨_, rfl, hp.fail _, fun hok => by cases hok⟩

/-- While its sums stay in range AX=0503 gives the block the size asked for. -/
theorem int31_0503_room {m : Machine} (hm : MemOk m) (hlive : Room m m.si m.di 0)
    (hrange : MemCall.InRange m .ax0503) :
    ∃ r, int31_0503 m = some r ∧ Preserves m r.1 ∧
      (r.2 = false → Room r.1 m.si m.di (sizeArg m)) := by
  by_cases hsi : m.si = 0
  · have hs := allocatedSeg_of_room hsi hlive
    obtain ⟨r, hr, hp⟩ := int31_0503_preserves hm ⟨hsi, hs⟩
    obtain ⟨mem, got, largest, bs', hres, hc', hk⟩ := mcbResize_spec hs (bytesToParas (sizeArg m))
    refine ⟨r, hr, hp, fun hok => ?_⟩
    unfold int31_0503 at hr
    dsimp only at hr
    rw [if_pos hsi, hres] at hr
    split_ifs at hr with h₁ h₂ h₃ h₄
    · obtain rfl := Option.some.inj hr
      cases hok
    · obtain rfl := Option.some.inj hr
      cases hok
    · obtain rfl := Option.some.inj hr
      cases hok
    · obtain rfl := Option.some.inj hr
      cases hok
    · obtain rfl := Option.some.inj hr
      rw [room_of_sameHost (sameHost_setR16s _ _), Room, if_pos hsi]
      rw [MemCall.InRange, if_pos hsi] at hrange
      have hparas := sizeArg_le_paras (hrange.resolve_right fun h => h₂ (Or.inr h))
      obtain ⟨hi, bs, q, b, hc, ha, hd⟩ := hs
      rw [hd] at hk
      obtain ⟨-, hk⟩ := hk bs hc
      obtain ⟨n, hn, -, hall⟩ := hk b ha
      refine ⟨hi, bs', q, ⟨b.tag, n⟩, hc', (hall q _).mpr (Or.inr ⟨rfl, rfl⟩), hd, ?_⟩
      exact hparas.trans (Nat.mul_le_mul_right 16 (hn (by simpa using h₄)))
  · rw [MemCall.InRange, if_neg hsi] at hrange
    obtain ⟨hok, hsucc⟩ := pmResize_packed hm.pm (sizeArg_lt m) hrange
    obtain ⟨busy, hframe⟩ := pmResize_frame m (handleArg m) (sizeArg m)
    have hmem : (pmResize m (handleArg m) (sizeArg m)).1.mem = m.mem := by
      rw [hframe]
      exact pmInit_mem m
    have hinit : (pmResize m (handleArg m) (sizeArg m)).1.mcbInitialised = m.mcbInitialised := by
      rw [hframe]
      unfold pmInit
      split_ifs <;> rfl
    have hp : Preserves m (pmResize m (handleArg m) (sizeArg m)).1 := by
      refine ⟨⟨hok, fun hi => ?_⟩, fun bs hi hc => ?_⟩
      · rw [hmem]
        exact hm.chain (hinit ▸ hi)
      · rw [hmem]
        exact ⟨hinit.trans hi, bs, hc, kept_of_off hc.tiles (AgreesOff.refl _ _)⟩
    unfold int31_0503
    dsimp only
    rw [if_neg hsi]
    split_ifs with h₁ h₂
    · exact ⟨_, rfl, (Preserves.refl hm).fail _, fun hok => by cases hok⟩
    · refine ⟨_, rfl, hp.regs _, fun _ => ?_⟩
      obtain ⟨pre, me, post, -, -, hle, hbusy⟩ := hsucc h₂
      rw [room_of_sameHost (sameHost_setR16s _ _), Room, if_neg hsi, hbusy]
      exact ⟨⟨handleArg m, pmRoundUp (sizeArg m)⟩, by simp, rfl, hle⟩
    · exact ⟨_, rfl, hp.fail _, fun hok => by cases hok⟩

/-- A block of the MCB arena is smaller than the arena. -/
theorem not_behind_dos {m : Machine} {di size : Nat} (h : 0x80000 < size) : ¬ Behind m 0 di size := by
  rw [Behind, if_pos rfl]
  rintro ⟨e, he, -, hs⟩
  have h₁ := he.low
  have h₂ := he.high
  simp only [MCB_ARENA_START, MCB_ARENA_END, Extent.stop] at h₁ h₂
  omega

/-- Beyond, it answers success without giving it: a size that rounds to 0 paragraphs, or a
    block past the end of the arena. -/
theorem int31_0503_wraps {m : Machine} (hm : MemOk m) (hlive : Room m m.si m.di 0)
    (hrange : ¬ MemCall.InRange m .ax0503) :
    ∃ r, int31_0503 m = some r ∧ r.2 = false ∧
      (m.si = 0 → 0x80000 < sizeArg m) ∧ (m.si ≠ 0 → ¬ PmOk r.1) := by
  have hlt := sizeArg_lt m
  by_cases hsi : m.si = 0
  · have hs := allocatedSeg_of_room hsi hlive
    rw [MemCall.InRange, if_pos hsi] at hrange
    have hzero : bytesToParas (sizeArg m) = 0 := by
      simp only [bytesToParas, lin]
      omega
    have hb := hs.bounds
    unfold int31_0503
    dsimp only
    rw [if_pos hsi, if_neg (by omega), if_neg (by omega), hzero, if_neg (by omega),
      if_neg (by rw [mcbResize_zero hs]; simp)]
    exact ⟨_, rfl, rfl, fun _ => by omega, fun h => absurd hsi h⟩
  · rw [MemCall.InRange, if_neg hsi] at hrange
    have hroom := hlive
    rw [Room, if_neg hsi] at hroom
    obtain ⟨e, he, hb, -⟩ := hroom
    have hbase : ∃ b ∈ m.pmBusy, b.base = handleArg m := ⟨e, he, hb⟩
    obtain ⟨hsucc, pre, me, post, -, -, hbusy⟩ := pmResize_wraps hm.pm hbase hlt
      (Nat.le_of_not_lt hrange)
    unfold int31_0503
    dsimp only
    rw [if_neg hsi, if_neg ?_, if_pos hsucc]
    · refine ⟨_, rfl, rfl, fun h => absurd h hsi, fun _ hok => ?_⟩
      have hfit := hok.packed.fits ⟨handleArg m, pmRoundUp (sizeArg m)⟩ (by
        rw [sameHost_setR16s]
        exact hbusy ▸ by simp)
      have hhigh := hok.high
      have hstop := hfit.high
      simp only [Extent.stop] at hhigh hstop
      omega
    · intro h0
      rw [h0] at hsucc
      simp [pmResize] at hsucc

theorem serve_live {m : Machine} (hm : MemOk m) {c : MemCall} (hlive : c.Live m)
    (hrange : c.InRange m) : ∃ r, c.serve m = some r ∧ Preserves m r.1 := by
  cases c with
  | ax0502 =>
    obtain ⟨r, hr, hp, -⟩ := int31_0502_gone hm hlive
    exact ⟨r, hr, hp⟩
  | ax0503 =>
    obtain ⟨r, hr, hp, -⟩ := int31_0503_room hm hlive hrange
    exact ⟨r, hr, hp⟩
  | ah48 => exact serve_preserves hm (c := .ah48) hlive
  | ah49 => exact serve_preserves hm (c := .ah49) hlive
  | ah4A => exact serve_preserves hm (c := .ah4A) hlive
  | ax0100 => exact serve_preserves hm (c := .ax0100) hlive
  | ax0101 => exact serve_preserves hm (c := .ax0101) hlive
  | ax0102 => exact serve_preserves hm (c := .ax0102) hlive
  | ax0501 => exact serve_preserves hm (c := .ax0501) hlive

/-- A call is sound when it is in range, and only then. -/
theorem sound_iff_inRange {m : Machine} (hm : MemOk m) {c : MemCall} (hlive : c.Live m)
    (hclear : FlagsClear m c) : ∃ r, c.serve m = some r ∧
      ((r.2 = false → MemOk (setCf r.1 r.2) ∧ Sound m (setCf r.1 r.2) c) ↔ c.InRange m) := by
  by_cases hrange : c.InRange m
  · obtain ⟨r, hr, hp⟩ := serve_live hm hlive hrange
    have hok := memOk_setCf hr hclear hp.1
    refine ⟨r, hr, iff_of_true (fun hsucc => ⟨hok, ?_⟩) hrange⟩
    cases c with
    | ax0501 =>
      have hroom := int31_0501_room hm hr hsucc
      exact ((room_setCf hr hclear hp.1 _ _ _).mpr hroom).behind hok
    | ax0502 =>
      obtain ⟨r', hr', -, hgone⟩ := int31_0502_gone hm hlive
      obtain rfl := Option.some.inj (hr.symm.trans hr')
      exact fun hroom => hgone hsucc ((room_setCf hr hclear hp.1 _ _ _).mp hroom)
    | ax0503 =>
      obtain ⟨r', hr', -, hroom⟩ := int31_0503_room hm hlive hrange
      obtain rfl := Option.some.inj (hr.symm.trans hr')
      exact ((room_setCf hr hclear hp.1 _ _ _).mpr (hroom hsucc)).behind hok
    | ah48 | ah49 | ah4A | ax0100 | ax0101 | ax0102 => trivial
  · cases c with
    | ax0503 =>
      obtain ⟨r, hr, hsucc, hdos, hpm⟩ := int31_0503_wraps hm hlive hrange
      refine ⟨r, hr, iff_of_false (fun h => ?_) hrange⟩
      obtain ⟨hok, hsound⟩ := h hsucc
      by_cases hsi : m.si = 0
      · rw [Sound, hsi] at hsound
        exact not_behind_dos (hdos hsi) hsound
      · exact hpm hsi ⟨hok.pm.packed, hok.pm.high, hok.pm.fresh⟩
    | ah48 | ah49 | ah4A | ax0100 | ax0101 | ax0102 | ax0501 | ax0502 => exact absurd trivial hrange

/-! ### Runs

Other parts of the host use the same allocators: the XMS driver and the LE loader take and
free blocks above 1 MB, AH=4B and the LE loader blocks of the MCB arena. -/

inductive HostUse where
  | pmAlloc (bytes : BitVec 32)
  | pmFree (base : BitVec 32)
  | mcbAllocate (need : BitVec 16)
  | mcbFree (dataSeg : BitVec 16)

def HostUse.apply (m : Machine) : HostUse → Option Machine
  | .pmAlloc bytes => some (PmArena.pmAlloc m bytes.toNat).1
  | .pmFree base => some (PmArena.pmFree m base.toNat).1
  | .mcbAllocate need => (Mcb.mcbAllocate m need.toNat).map (·.1)
  | .mcbFree dataSeg => some (Mcb.mcbFree m dataSeg.toNat).1

inductive BlockEvent where
  | arena (e : ArenaEvent)
  | host (u : HostUse)

def blockStep (m : Machine) : BlockEvent → Machine → Prop
  | .arena e, m' => arenaStep m e m'
  | .host u, m' => u.apply m = some m'

/-- Guest code keeps off the chain headers; calls are made with live blocks, with the FLAGS
    image off the headers, and in range. -/
def InBounds (m : Machine) : BlockEvent → Prop
  | .arena (.guest cpu mem) => ProperArgs m (.guest cpu mem)
  | .arena (.call c) => c.Live m ∧ FlagsClear m c ∧ c.InRange m
  | .host (.mcbFree dataSeg) => AllocatedSeg m dataSeg.toNat
  | .host _ => True

theorem hostUse_memOk {m m' : Machine} {u : HostUse} (hm : MemOk m) (hb : InBounds m (.host u))
    (hs : u.apply m = some m') : MemOk m' := by
  cases u with
  | pmAlloc bytes =>
    obtain rfl := Option.some.inj hs
    exact (pmAlloc_preserves hm bytes.isLt).1.1
  | pmFree base =>
    obtain rfl := Option.some.inj hs
    exact ⟨pmFree_ok hm.pm _, hm.chain⟩
  | mcbAllocate need =>
    obtain ⟨m₁, seg, largest, halloc, hp, -⟩ := mcbAllocate_preserves hm need.toNat
    simp only [HostUse.apply, halloc, Option.map_some, Option.some.injEq] at hs
    exact hs ▸ hp.1
  | mcbFree dataSeg =>
    obtain rfl := Option.some.inj hs
    exact (mcbFree_preserves hm hb).1.1

theorem blockStep_memOk {m m' : Machine} {e : BlockEvent} (hm : MemOk m) (hb : InBounds m e)
    (hs : blockStep m e m') : MemOk m' := by
  cases e with
  | host u => exact hostUse_memOk hm hb hs
  | arena e =>
    cases e with
    | guest cpu mem =>
      have hp : Proper m (.guest cpu mem) := ⟨hb, fun c h => by cases h⟩
      exact arenaStep_memOk hm hp hs
    | call c =>
      obtain ⟨hlive, hclear, hrange⟩ := hb
      obtain ⟨r, hr, hp⟩ := serve_live hm hlive hrange
      have hok := memOk_setCf hr hclear hp.1
      simp only [blockStep, arenaStep, finish, hr, Option.map_some, Option.some.injEq] at hs
      exact hs ▸ hok

/-- **DPMI blocks are what their handles promise, exactly while AX=0503 stays in range.**  In
    every run from boot whose steps are in range the protected-mode arena is page-aligned, in
    range and disjoint; and there the next call, with a live handle and any size, is sound if
    and only if it is in range itself. -/
theorem dpmiBlocks_sound_iff {es : List BlockEvent} {m : Machine}
    (hrun : Guarded blockStep InBounds bootMachine es m) :
    MemOk m ∧ ∀ c : MemCall, c.Live m → FlagsClear m c → ∃ r, c.serve m = some r ∧
      ((r.2 = false → MemOk (setCf r.1 r.2) ∧ Sound m (setCf r.1 r.2) c) ↔ c.InRange m) := by
  have hm : MemOk m := hrun.invariant (fun _ _ _ h hg hs => blockStep_memOk h hg hs) memOk_boot
  exact ⟨hm, fun c hlive hclear => sound_iff_inRange hm hlive hclear⟩

/-! ### A run that stretches its block -/

/-- BX:CX and SI:DI, every other register 0. -/
def blockCpu (bx cx si di : BitVec 32) : Cpu :=
  { zeroCpu with
    regs := fun
      | .ebx => bx
      | .ecx => cx
      | .esi => si
      | .edi => di
      | _ => 0 }

/-- The client asks for 64 KB. -/
def allocating : Machine := { bootMachine with cpu := blockCpu 1 0 0 0 }

/-- It got them at 0x120000. -/
def handed : Machine := (finish (MemCall.serve .ax0501 allocating)).getD allocating

/-- It asks AX=0503 to make them FFFFF000h bytes. -/
def stretching : Machine := { handed with cpu := blockCpu 0xFFFF 0xF000 0x12 0 }

def stretchingEvents : List BlockEvent :=
  [.arena (.guest allocating.cpu allocating.mem), .arena (.call .ax0501),
    .arena (.guest stretching.cpu stretching.mem)]

theorem run_stretching : Guarded blockStep InBounds bootMachine stretchingEvents stretching := by
  have hcall : arenaStep allocating (.call .ax0501) handed :=
    (Option.getD_of_ne_none (by decide +kernel) _).symm
  have hclear : FlagsClear allocating .ax0501 := by
    intro r bs hr hi
    have h : (MemCall.serve .ax0501 allocating).map (fun r => r.1.mcbInitialised) = some false := by
      decide +kernel
    rw [hr] at h
    simp [hi] at h
  have hb : InBounds allocating (.arena (.call .ax0501)) := ⟨trivial, hclear, trivial⟩
  exact .cons (t := allocating) (fun h => absurd h (by decide)) rfl
    (.cons hb hcall (.cons (fun _ _ _ _ _ => rfl) rfl (.nil _)))

/-- The run up to the stretch. -/
theorem dpmiBlocks_sound_iff_stretching :
    MemOk stretching ∧ ∀ c : MemCall, c.Live stretching → FlagsClear stretching c →
      ∃ r, c.serve stretching = some r ∧
        ((r.2 = false → MemOk (setCf r.1 r.2) ∧ Sound stretching (setCf r.1 r.2) c) ↔
          c.InRange stretching) :=
  dpmiBlocks_sound_iff run_stretching

/-- AX=0503 with a live handle answers success, and the block behind the handle runs past the
    end of the arena at 16 MB. -/
theorem dpmiBlocks_stretch :
    Guarded blockStep InBounds bootMachine stretchingEvents stretching ∧
    MemCall.Live stretching .ax0503 ∧
    ∃ r, MemCall.serve .ax0503 stretching = some r ∧ r.2 = false ∧
      r.1.pmBusy = [⟨0x120000, 0xFFFFF000⟩] ∧ r.1.pmEnd = 0x1000000 ∧
      ¬ Sound stretching (setCf r.1 r.2) .ax0503 := by
  have h : (MemCall.serve .ax0503 stretching).map (fun r => (r.2, r.1.pmBusy, r.1.pmEnd)) =
      some (false, [⟨0x120000, 0xFFFFF000⟩], 0x1000000) := by
    decide +kernel
  have hlive : MemCall.Live stretching .ax0503 := by
    rw [MemCall.Live, Room, if_neg (by decide +kernel)]
    exact ⟨⟨0x120000, 0x10000⟩, by decide +kernel, by decide +kernel, Nat.zero_le _⟩
  obtain ⟨r, hr, hrr⟩ := Option.map_eq_some_iff.mp h
  obtain ⟨hsucc, hbusy, hend⟩ : r.2 = false ∧ r.1.pmBusy = _ ∧ r.1.pmEnd = _ := by
    simpa using hrr
  refine ⟨run_stretching, hlive, r, hr, hsucc, hbusy, hend, fun hsound => ?_⟩
  rw [Sound, Behind, if_neg (by decide +kernel)] at hsound
  obtain ⟨e, he, -, -⟩ := hsound
  obtain ⟨pre, post, hsplit, -⟩ := he.apart
  have hstop := he.high
  have hmem : e ∈ r.1.pmBusy := by
    have : r.1.pmBusy = pre ++ e :: post := hsplit
    rw [this]
    simp
  rw [hbusy, List.mem_singleton] at hmem
  have hend' : (setCf r.1 r.2).pmEnd = 0x1000000 := hend
  rw [hmem, hend'] at hstop
  simp [Extent.stop] at hstop

end Dosiz
