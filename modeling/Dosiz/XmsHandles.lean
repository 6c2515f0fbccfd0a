/-
  Dosiz/XmsHandles.lean
  =====================
  **XMS handles and the protected-mode arena.**

  Functions 09h and 0Ah of the XMS driver (`dosiz_xms_driver` of `bridge.cc`) take their
  blocks from the arena that AX=0501/0502/0503 use.  The driver keeps two maps, from a
  handle to the block's address and to its size, and a 16-bit counter it never resets and
  never compares with the handles in use.  A run is any interleaving of the five calls
  with guest code; beside the host's globals it records which handles and blocks the
  clients hold.  The handles own their blocks exactly as long as the counter has not
  come round (`xmsHandles_sound_iff`).
-/
import Mathlib.Data.List.AList
import Dosiz.DpmiBlocks

namespace Dosiz.XmsHandles

open ByteMemory Machine Mcb PmArena Extents Transition

/-! ### The driver -/

/-- `s_xms_handles`, `s_xms_sizes` and `s_xms_next_handle`. -/
structure Xms where
  handles : AList (fun _ : Nat => Nat)
  sizes : AList (fun _ : Nat => Nat)
  nextHandle : Nat

def xmsStart : Xms := ⟨∅, ∅, 1⟩

/-- Function 09h: allocate DX KB. -/
def xms_09 (x : Xms) (m : Machine) : Xms × Machine :=
  let bytes := m.dx * 1024
  let r := pmAlloc m (if bytes = 0 then 4096 else bytes)
  if r.2 = 0 then (x, (r.1.setR16 .eax 0).setR8l .ebx 0xA0)
  else
    ({ handles := x.handles.insert x.nextHandle r.2
       sizes := x.sizes.insert x.nextHandle m.dx
       nextHandle := (x.nextHandle + 1) % 65536 },
      r.1.setR16s [(.eax, 1), (.edx, x.nextHandle)])

/-- Function 0Ah: free the block of handle DX. -/
def xms_0A (x : Xms) (m : Machine) : Xms × Machine :=
  match x.handles.lookup m.dx with
  | none => (x, (m.setR16 .eax 0).setR8l .ebx 0xA2)
  | some base =>
    ({ x with handles := x.handles.erase m.dx, sizes := x.sizes.erase m.dx },
      (pmFree m base).1.setR16 .eax 1)

/-! ### Runs -/

/-- The host, and what its clients hold: the XMS handles that 09h gave, and the addresses
    SI:DI of the blocks above 1 MB that AX=0501 gave.  `granted` counts the allocations. -/
structure XmsHost where
  machine : Machine
  xms : Xms
  held : List Nat
  blocks : List Nat
  granted : Nat

inductive XmsEvent where
  | guest (cpu : Cpu) (mem : Mem)
  | fn09 | fn0A | ax0501 | ax0502 | ax0503

/-- The state after an INT 31h call, in which the blocks held become `blocks`. -/
def answered (s : XmsHost) (r : Reply) (blocks : Machine × Bool → List Nat) : Option XmsHost :=
  r.map fun p => { s with machine := setCf p.1 p.2, blocks := blocks p }

def xmsNext (s : XmsHost) : XmsEvent → Option XmsHost
  | .guest cpu mem => some { s with machine := { s.machine with cpu := cpu, mem := mem } }
  | .fn09 =>
    let r := xms_09 s.xms s.machine
    if r.2.ax = 1 then
      some { s with machine := r.2, xms := r.1, held := r.2.dx :: s.held, granted := s.granted + 1 }
    else some { s with machine := r.2, xms := r.1 }
  | .fn0A =>
    let r := xms_0A s.xms s.machine
    if r.2.ax = 1 then
      some { s with machine := r.2, xms := r.1, held := s.held.erase s.machine.dx }
    else some { s with machine := r.2, xms := r.1 }
  | .ax0501 => answered s (int31_0501 s.machine) fun p =>
      if p.2 = false ∧ p.1.si ≠ 0 then handleArg p.1 :: s.blocks else s.blocks
  | .ax0502 => answered s (int31_0502 s.machine) fun p =>
      if p.2 = false ∧ s.machine.si ≠ 0 then s.blocks.erase (handleArg s.machine) else s.blocks
  | .ax0503 => answered s (int31_0503 s.machine) fun _ => s.blocks

def xmsStep (s : XmsHost) (e : XmsEvent) (t : XmsHost) : Prop := xmsNext s e = some t

/-- AX=0502 and AX=0503 get a block AX=0501 gave that is still held (or one of the MCB arena,
    where SI = 0). -/
def Holds (s : XmsHost) : XmsEvent → Prop
  | .ax0502 | .ax0503 => s.machine.si ≠ 0 → handleArg s.machine ∈ s.blocks
  | _ => True

/-- `Holds`, and AX=0503 computes the end of the block without wrapping. -/
def Proper (s : XmsHost) (e : XmsEvent) : Prop :=
  Holds s e ∧ (e = .ax0503 → s.machine.si ≠ 0 →
    handleArg s.machine + pmRoundUp (sizeArg s.machine) < 4294967296)

/-! ### What the clients are promised -/

/-- Every handle held owns a live block of the arena with at least its size, which no other
    handle and no block of AX=0501 shares. -/
structure XmsSound (s : XmsHost) : Prop where
  nonzero : 0 ∉ s.held
  distinct : s.held.Nodup
  owns : ∀ h ∈ s.held, ∃ kb, s.xms.sizes.lookup h = some kb ∧
    ∃ e ∈ s.machine.pmBusy, s.xms.handles.lookup h = some e.base ∧ kb * 1024 ≤ e.size ∧
      PM_ARENA_START ≤ e.base ∧ e.stop ≤ s.machine.pmEnd ∧
      (∀ h' ∈ s.held, h' ≠ h → ∀ f ∈ s.machine.pmBusy, s.xms.handles.lookup h' = some f.base →
        Apart e f) ∧
      ∀ f ∈ s.machine.pmBusy, f.base ∈ s.blocks → Apart e f

/-- In every state of the run the promise holds. -/
def SoundRun (s : XmsHost) (es : List XmsEvent) (t : XmsHost) : Prop :=
  Throughout xmsStep Proper XmsSound s es t

/-! ### The arena -/

/-- A busy block stands at `b`, with at least `n` bytes. -/
def StandsAt (m : Machine) (b n : Nat) : Prop := ∃ e ∈ m.pmBusy, e.base = b ∧ n ≤ e.size

theorem StandsAt.mono {m : Machine} {b n n' : Nat} (h : StandsAt m b n) (hn : n' ≤ n) :
    StandsAt m b n' := by
  obtain ⟨e, he, hb, hsize⟩ := h
  exact ⟨e, he, hb, hn.trans hsize⟩

theorem apart_of_base_ne {m : Machine} (h : PmOk m) {e f : PmBlock} (he : e ∈ m.pmBusy)
    (hf : f ∈ m.pmBusy) (hne : f.base ≠ e.base) : Apart e f := by
  obtain ⟨pre, post, hsplit⟩ := List.append_of_mem he
  have hp := h.packed
  rw [hsplit] at hp hf
  refine hp.apart_mid f ?_
  rcases List.mem_append.mp hf with hf | hf
  · exact List.mem_append_left _ hf
  · rcases List.mem_cons.mp hf with rfl | hf
    · exact absurd rfl hne
    · exact List.mem_append_right _ hf

/-- `m'` has the arena of `m`. -/
structure SamePm (m m' : Machine) : Prop where
  busy : m'.pmBusy = m.pmBusy
  stop : m'.pmEnd = m.pmEnd
  init : m'.pmInitialised = m.pmInitialised

theorem SamePm.pmOk {m m' : Machine} (h : SamePm m m') (hp : PmOk m) : PmOk m' where
  packed := by
    rw [h.busy, h.stop]
    exact hp.packed
  high := by
    rw [h.stop]
    exact hp.high
  fresh hf := by
    rw [h.busy]
    exact hp.fresh (h.init ▸ hf)

theorem SamePm.stands {m m' : Machine} (h : SamePm m m') {b n : Nat} :
    StandsAt m' b n ↔ StandsAt m b n := by
  rw [StandsAt, h.busy]
  exact Iff.rfl

theorem SamePm.trans {m m' m'' : Machine} (h : SamePm m m') (h' : SamePm m' m'') : SamePm m m'' :=
  ⟨h'.busy.trans h.busy, h'.stop.trans h.stop, h'.init.trans h.init⟩

theorem samePm_of_sameHost {m m' : Machine} (h : SameHost m m') : SamePm m m' := by
  rw [h]
  exact ⟨rfl, rfl, rfl⟩

theorem samePm_mcbAllocate {m : Machine} {need : Nat} {r : Machine × Nat × Nat}
    (h : mcbAllocate m need = some r) : SamePm m r.1 := by
  have hready : SamePm m (mcbReady m) := by
    rcases mcbReady_cases m with ⟨-, hr⟩ | ⟨-, hr⟩ <;> rw [hr] <;> exact ⟨rfl, rfl, rfl⟩
  unfold mcbAllocate at h
  dsimp only at h
  split at h
  · cases h
  · obtain rfl := Option.some.inj h
    exact hready.trans ⟨rfl, rfl, rfl⟩

theorem samePm_mcbFree (m : Machine) (seg : Nat) : SamePm m (mcbFree m seg).1 := by
  unfold mcbFree
  split <;> exact ⟨rfl, rfl, rfl⟩

theorem samePm_mcbResize (m : Machine) (seg n : Nat) : SamePm m (mcbResize m seg n).1 := by
  unfold mcbResize
  split <;> exact ⟨rfl, rfl, rfl⟩

/-- Going from `m` to `m'` keeps the arena packed and every block at the addresses `S`. -/
structure KeepsAt (S : Set Nat) (m m' : Machine) : Prop where
  ok : PmOk m'
  keeps : ∀ b ∈ S, ∀ n, StandsAt m b n → StandsAt m' b n

theorem KeepsAt.same {S : Set Nat} {m m' m'' : Machine} (h : KeepsAt S m m') (hs : SamePm m' m'') :
    KeepsAt S m m'' :=
  ⟨hs.pmOk h.ok, fun b hb n hst => hs.stands.mpr (h.keeps b hb n hst)⟩

theorem KeepsAt.refl {S : Set Nat} {m : Machine} (h : PmOk m) : KeepsAt S m m :=
  ⟨h, fun _ _ _ hst => hst⟩

/-- What `pm_alloc` gives is a new block; those that stand remain. -/
theorem pmAlloc_stands {m : Machine} (h : PmOk m) {bytes : Nat} (hb : bytes < 4294967296) :
    KeepsAt Set.univ m (pmAlloc m bytes).1 ∧ ((pmAlloc m bytes).2 ≠ 0 →
      StandsAt (pmAlloc m bytes).1 (pmAlloc m bytes).2 bytes ∧
      ¬ StandsAt m (pmAlloc m bytes).2 0 ∧ PM_ARENA_START ≤ (pmAlloc m bytes).2 ∧
      (pmAlloc m bytes).2 < 4294967296) := by
  obtain ⟨hok, hcase⟩ := pmAlloc_spec h hb
  rcases hcase with ⟨hz, hperm, -⟩ | ⟨e, he, hsize, -, hperm, hfit, -⟩
  · refine ⟨⟨hok, fun b _ n hst => ?_⟩, fun hne => absurd hz hne⟩
    obtain ⟨f, hf, hfb⟩ := hst
    exact ⟨f, hperm.mem_iff.mpr hf, hfb⟩
  · have hmem : e ∈ (pmAlloc m bytes).1.pmBusy := hperm.mem_iff.mpr (by simp)
    refine ⟨⟨hok, fun b _ n hst => ?_⟩, fun _ => ?_⟩
    · obtain ⟨f, hf, hfb⟩ := hst
      exact ⟨f, hperm.mem_iff.mpr (List.mem_append_left _ hf), hfb⟩
    · rw [he]
      refine ⟨⟨e, hmem, rfl, hsize⟩, ?_, hfit.low, ?_⟩
      · rintro ⟨f, hf, hfb, -⟩
        -- two blocks of a packed list have different bases
        have hpk := hok.packed.perm hperm
        have hap := (List.pairwise_append.mp hpk.apart).2.2 f hf e (by simp)
        have hpos := hfit.pos
        have hfpos := (h.packed.fits f hf).pos
        simp only [Apart, Extent.stop] at hap
        omega
      · have hhigh := hfit.high
        have hend := hok.high
        simp only [Extent.stop] at hhigh
        omega

theorem pmFree_stands {m : Machine} (h : PmOk m) (base : Nat) :
    KeepsAt { b | b ≠ base } m (pmFree m base).1 := by
  refine ⟨pmFree_ok h base, fun b hb n hst => ?_⟩
  obtain ⟨e, he, hbase, hsize⟩ := hst
  refine ⟨e, (List.mem_eraseP_of_neg ?_).mpr he, hbase, hsize⟩
  simpa [hbase] using hb

/-- A resize that is refused leaves the blocks as they were. -/
theorem pmResize_refused {m : Machine} {base newBytes : Nat}
    (h : (pmResize m base newBytes).2 = false) :
    (pmResize m base newBytes).1.pmBusy = m.pmBusy := by
  have hbusy := pmInit_busy m
  unfold pmResize at h ⊢
  by_cases h₁ : newBytes = 0
  · simp only [if_pos h₁]
    exact hbusy
  by_cases h₂ : pmRoundUp newBytes < newBytes
  · simp only [if_neg h₁, if_pos h₂]
    exact hbusy
  simp only [if_neg h₁, if_neg h₂] at h ⊢
  cases hfind : pmFind base (pmInit m).pmBusy with
  | none => exact hbusy
  | some r =>
    rw [hfind] at h
    dsimp only at h ⊢
    by_cases h₃ : pmRoundUp newBytes ≤ r.2.1.size
    · rw [if_pos h₃] at h
      cases h
    rw [if_neg h₃] at h ⊢
    by_cases h₄ : (pmInit m).pmEnd < lin (base + pmRoundUp newBytes)
    · rw [if_pos h₄]
      exact hbusy
    rw [if_neg h₄] at h ⊢
    split_ifs at h ⊢
    exact hbusy

theorem pmResize_stands {m : Machine} (h : PmOk m) {base newBytes : Nat}
    (hb : newBytes < 4294967296) (hsum : base + pmRoundUp newBytes < 4294967296) :
    KeepsAt { b | b ≠ base } m (pmResize m base newBytes).1 ∧
      (StandsAt m base 0 → StandsAt (pmResize m base newBytes).1 base 0) := by
  obtain ⟨hok, hsucc⟩ := pmResize_packed h hb hsum
  cases hres : (pmResize m base newBytes).2 with
  | false =>
    have hbusy := pmResize_refused hres
    have hst : ∀ b n, StandsAt m b n → StandsAt (pmResize m base newBytes).1 b n := by
      intro b n hst
      rwa [StandsAt, hbusy]
    exact ⟨⟨hok, fun b _ n => hst b n⟩, hst base 0⟩
  | true =>
    obtain ⟨pre, me, post, hbusy, hme, -, hbusy'⟩ := hsucc hres
    refine ⟨⟨hok, fun b hb n hst => ?_⟩, fun _ => ⟨⟨base, pmRoundUp newBytes⟩, ?_, rfl, Nat.zero_le _⟩⟩
    · obtain ⟨e, he, hbase, hsize⟩ := hst
      refine ⟨e, ?_, hbase, hsize⟩
      rw [hbusy'] 
      rw [hbusy] at he
      rcases List.mem_append.mp he with he | he
      · exact List.mem_append_left _ he
      · rcases List.mem_cons.mp he with rfl | he
        · exact absurd (hbase.symm.trans hme) hb
        · exact List.mem_append_right _ (List.mem_cons_of_mem _ he)
    · rw [hbusy']
      simp

/-! ### The INT 31h services -/

theorem handleArg_setR16s (m : Machine) (a : Nat) :
    handleArg (m.setR16s [(.ebx, a / 65536), (.ecx, a), (.esi, a / 65536), (.edi, a)]) =
      a / 65536 % 65536 * 65536 + a % 65536 := by
  simp only [handleArg, setR16s, List.foldl, si, di, r16_setR16, ne_eq, reduceCtorEq,
    not_false_eq_true, r16_setR16_of_ne]

theorem int31_0501_stands {m : Machine} (h : PmOk m) {r : Machine × Bool}
    (hr : int31_0501 m = some r) : KeepsAt Set.univ m r.1 ∧ (r.2 = false → r.1.si ≠ 0 →
      StandsAt r.1 (handleArg r.1) 0 ∧ ¬ StandsAt m (handleArg r.1) 0) := by
  unfold int31_0501 at hr
  dsimp only at hr
  obtain ⟨hkeep, hgiven⟩ := pmAlloc_stands h (sizeArg_lt m)
  split_ifs at hr with h₀ hlin hparas
  · obtain rfl := Option.some.inj hr
    exact ⟨(KeepsAt.refl h).same (samePm_of_sameHost (sameHost_setR16 _ _ _)), fun hx => by cases hx⟩
  · -- a block above 1 MB
    obtain rfl := Option.some.inj hr
    have hsame := samePm_of_sameHost (sameHost_setR16s (pmAlloc m (sizeArg m)).1
      [(.ebx, (pmAlloc m (sizeArg m)).2 / 65536), (.ecx, (pmAlloc m (sizeArg m)).2),
        (.esi, (pmAlloc m (sizeArg m)).2 / 65536), (.edi, (pmAlloc m (sizeArg m)).2)])
    obtain ⟨hst, hnew, -, hlt⟩ := hgiven hlin
    refine ⟨hkeep.same hsame, fun _ _ => ?_⟩
    rw [handleArg_setR16s, show ∀ a, a < 4294967296 → a / 65536 % 65536 * 65536 + a % 65536 = a by
      intro a ha
      omega]
    · exact ⟨hsame.stands.mpr (hst.mono (Nat.zero_le _)), hnew⟩
    · exact hlt
  · -- the MCB arena: SI is 0
    split at hr
    · cases hr
    · rename_i p halloc
      have hsame := samePm_mcbAllocate halloc
      split_ifs at hr
      · obtain rfl := Option.some.inj hr
        refine ⟨(hkeep.same hsame).same (samePm_of_sameHost (sameHost_setR16s _ _)),
          fun _ hsi => absurd ?_ hsi⟩
        simp only [setR16s, List.foldl, si, r16_setR16, ne_eq, reduceCtorEq, not_false_eq_true,
          r16_setR16_of_ne]
      · obtain rfl := Option.some.inj hr
        exact ⟨(hkeep.same hsame).same (samePm_of_sameHost (sameHost_setR16 _ _ _)),
          fun hx => by cases hx⟩
  · obtain rfl := Option.some.inj hr
    exact ⟨hkeep.same (samePm_of_sameHost (sameHost_setR16 _ _ _)), fun hx => by cases hx⟩

theorem int31_0502_stands {m : Machine} (h : PmOk m) {r : Machine × Bool}
    (hr : int31_0502 m = some r) :
    KeepsAt { b | m.si ≠ 0 → r.2 = false → b ≠ handleArg m } m r.1 := by
  unfold int31_0502 at hr
  dsimp only at hr
  split_ifs at hr with hsi h₁ h₂ h₃
  · obtain rfl := Option.some.inj hr
    exact (KeepsAt.refl h).same (samePm_of_sameHost (sameHost_setR16 _ _ _))
  · obtain rfl := Option.some.inj hr
    exact (KeepsAt.refl h).same (samePm_mcbFree m m.di)
  · obtain rfl := Option.some.inj hr
    exact ((KeepsAt.refl h).same (samePm_mcbFree m m.di)).same
      (samePm_of_sameHost (sameHost_setR16 _ _ _))
  · obtain rfl := Option.some.inj hr
    have hfree := pmFree_stands h (handleArg m)
    exact ⟨hfree.ok, fun b hb => hfree.keeps b (hb hsi rfl)⟩
  · obtain rfl := Option.some.inj hr
    -- nothing stood there
    have hnone : (pmFree m (handleArg m)).1.pmBusy = m.pmBusy := by
      refine List.eraseP_of_forall_not fun e he hb => h₃ ?_
      exact List.any_eq_true.mpr ⟨e, he, hb⟩
    exact (KeepsAt.refl h).same ⟨hnone, rfl, rfl⟩

theorem int31_0503_stands {m : Machine} (h : PmOk m) {r : Machine × Bool}
    (hr : int31_0503 m = some r)
    (hsum : m.si ≠ 0 → handleArg m + pmRoundUp (sizeArg m) < 4294967296) :
    KeepsAt { b | m.si ≠ 0 → b ≠ handleArg m } m r.1 ∧
      (StandsAt m (handleArg m) 0 → StandsAt r.1 (handleArg m) 0) := by
  have hwhole : ∀ {m' : Machine}, SamePm m m' → KeepsAt { b | m.si ≠ 0 → b ≠ handleArg m } m m' ∧
      (StandsAt m (handleArg m) 0 → StandsAt m' (handleArg m) 0) := fun hs =>
    ⟨(KeepsAt.refl h).same hs, hs.stands.mpr⟩
  unfold int31_0503 at hr
  dsimp only at hr
  split_ifs at hr with h₀ hsi h₁ h₂ h₃ h₄
  · obtain rfl := Option.some.inj hr
    exact hwhole (samePm_of_sameHost (sameHost_setR16 _ _ _))
  · obtain rfl := Option.some.inj hr
    exact hwhole (samePm_of_sameHost (sameHost_setR16 _ _ _))
  · obtain rfl := Option.some.inj hr
    exact hwhole (samePm_of_sameHost (sameHost_setR16 _ _ _))
  · obtain rfl := Option.some.inj hr
    exact hwhole ((samePm_mcbResize m m.di _).trans (samePm_of_sameHost (sameHost_setR16 _ _ _)))
  · obtain rfl := Option.some.inj hr
    exact hwhole ((samePm_mcbResize m m.di _).trans (samePm_of_sameHost (sameHost_setR16s _ _)))
  · obtain rfl := Option.some.inj hr
    obtain ⟨hkeep, hbase⟩ := pmResize_stands h (sizeArg_lt m) (hsum hsi)
    have hsame := samePm_of_sameHost (sameHost_setR16s (pmResize m (handleArg m) (sizeArg m)).1
      [(.ebx, handleArg m / 65536), (.ecx, handleArg m)])
    refine ⟨?_, fun hst => hsame.stands.mpr (hbase hst)⟩
    exact ⟨hsame.pmOk hkeep.ok, fun b hb n hst => hsame.stands.mpr (hkeep.keeps b (hb hsi) n hst)⟩
  · obtain rfl := Option.some.inj hr
    obtain ⟨hkeep, hbase⟩ := pmResize_stands h (sizeArg_lt m) (hsum hsi)
    have hsame := samePm_of_sameHost (sameHost_setR16 (pmResize m (handleArg m) (sizeArg m)).1
      .eax 0x8012)
    refine ⟨?_, fun hst => hsame.stands.mpr (hbase hst)⟩
    exact ⟨hsame.pmOk hkeep.ok, fun b hb n hst => hsame.stands.mpr (hkeep.keeps b (hb hsi) n hst)⟩

/-! ### Ownership -/

/-- While at most 65535 handles were given: the handles held are those in the maps, they lie
    between 1 and the number given, and every handle and every block held stands at an
    address of its own. -/
structure Owned (s : XmsHost) : Prop where
  pm : PmOk s.machine
  held : ∀ h, h ∈ s.held ↔ h ∈ s.xms.handles
  nodup : s.held.Nodup
  range : ∀ h ∈ s.held, 1 ≤ h ∧ h ≤ s.granted
  stands : ∀ h b, s.xms.handles.lookup h = some b →
    ∃ kb, s.xms.sizes.lookup h = some kb ∧ StandsAt s.machine b (kb * 1024)
  own : ∀ h h' b, s.xms.handles.lookup h = some b → s.xms.handles.lookup h' = some b → h = h'
  apart : ∀ h b, s.xms.handles.lookup h = some b → b ∉ s.blocks
  blocks : ∀ b ∈ s.blocks, StandsAt s.machine b 0
  once : s.blocks.Nodup

theorem Owned.sound {s : XmsHost} (h : Owned s) : XmsSound s where
  nonzero h0 := by
    have hr := (h.range 0 h0).1
    omega
  distinct := h.nodup
  owns a ha := by
    obtain ⟨b, hb⟩ := Option.isSome_iff_exists.mp (AList.lookup_isSome.mpr ((h.held a).mp ha))
    obtain ⟨kb, hkb, e, he, rfl, hsize⟩ := h.stands a b hb
    have hfit := h.pm.packed.fits e he
    refine ⟨kb, hkb, e, he, hb, hsize, hfit.low, hfit.high, fun a' _ hne f hf hfb => ?_,
      fun f hf hfb => ?_⟩
    · refine apart_of_base_ne h.pm he hf fun heq => hne ?_
      exact h.own a' a e.base (heq ▸ hfb) hb
    · refine apart_of_base_ne h.pm he hf fun heq => ?_
      exact h.apart a e.base hb (heq ▸ hfb)

/-- The arena may change in any way that keeps the blocks of the handles and those held. -/
theorem Owned.keep {s : XmsHost} {m : Machine} {S : Set Nat} (h : Owned s)
    (hk : KeepsAt S s.machine m) (hS : ∀ a b, s.xms.handles.lookup a = some b → b ∈ S)
    (hblocks : ∀ b ∈ s.blocks, StandsAt m b 0) : Owned { s with machine := m } where
  pm := hk.ok
  held := h.held
  nodup := h.nodup
  range := h.range
  stands a b hb := by
    obtain ⟨kb, hkb, hst⟩ := h.stands a b hb
    exact ⟨kb, hkb, hk.keeps b (hS a b hb) _ hst⟩
  own := h.own
  apart := h.apart
  blocks := hblocks
  once := h.once

/-- Nothing that stands is moved. -/
theorem Owned.keepAll {s : XmsHost} {m : Machine} (h : Owned s)
    (hk : KeepsAt Set.univ s.machine m) : Owned { s with machine := m } :=
  h.keep hk (fun _ _ _ => Set.mem_univ _) fun b hb => hk.keeps b (Set.mem_univ _) 0 (h.blocks b hb)

/-- A new handle on a block that nothing stood at. -/
theorem Owned.give {s : XmsHost} {m : Machine} {a b kb : Nat} (h : Owned s)
    (hk : KeepsAt Set.univ s.machine m) (hst : StandsAt m b (kb * 1024))
    (hnew : ¬ StandsAt s.machine b 0) (ha : a = s.granted + 1) :
    Owned { s with
      machine := m
      xms := ⟨s.xms.handles.insert a b, s.xms.sizes.insert a kb, (a + 1) % 65536⟩
      held := a :: s.held
      granted := s.granted + 1 } := by
  have hfresh : a ∉ s.held := fun hmem => by
    have hr := (h.range a hmem).2
    omega
  -- a block that stood before is not the new one
  have hold : ∀ a' b', s.xms.handles.lookup a' = some b' → b' ≠ b := by
    rintro a' b' hb' rfl
    obtain ⟨kb', -, hst'⟩ := h.stands a' b' hb'
    exact hnew (hst'.mono (Nat.zero_le _))
  have hlookup : ∀ a' b', (s.xms.handles.insert a b).lookup a' = some b' →
      (a' = a ∧ b' = b) ∨ (a' ≠ a ∧ s.xms.handles.lookup a' = some b') := by
    intro a' b' hb'
    by_cases haa : a' = a
    · rw [haa, AList.lookup_insert] at hb'
      exact Or.inl ⟨haa, (Option.some.inj hb').symm⟩
    · rw [AList.lookup_insert_ne haa] at hb'
      exact Or.inr ⟨haa, hb'⟩
  constructor
  · exact hk.ok
  · intro a'
    rw [List.mem_cons, AList.mem_insert, h.held]
  · exact List.nodup_cons.mpr ⟨hfresh, h.nodup⟩
  · intro a' ha'
    rcases List.mem_cons.mp ha' with rfl | ha'
    · dsimp only
      omega
    · have hr := h.range a' ha'
      dsimp only
      omega
  · intro a' b' hb'
    rcases hlookup a' b' hb' with ⟨rfl, rfl⟩ | ⟨hne, hb'⟩
    · exact ⟨kb, AList.lookup_insert _, hst⟩
    · obtain ⟨kb', hkb', hst'⟩ := h.stands a' b' hb'
      exact ⟨kb', (AList.lookup_insert_ne hne).trans hkb', hk.keeps b' (Set.mem_univ _) _ hst'⟩
  · intro a₁ a₂ b' h₁ h₂
    rcases hlookup a₁ b' h₁ with ⟨rfl, hb₁⟩ | ⟨-, h₁⟩
    · rcases hlookup a₂ b' h₂ with ⟨rfl, -⟩ | ⟨-, h₂⟩
      · rfl
      · exact absurd hb₁ (hold a₂ b' h₂)
    · rcases hlookup a₂ b' h₂ with ⟨-, hb₂⟩ | ⟨-, h₂⟩
      · exact absurd hb₂ (hold a₁ b' h₁)
      · exact h.own a₁ a₂ b' h₁ h₂
  · intro a' b' hb' hmem
    rcases hlookup a' b' hb' with ⟨-, rfl⟩ | ⟨-, hb'⟩
    · exact hnew (h.blocks b' hmem)
    · exact h.apart a' b' hb' hmem
  · intro b' hb'
    exact hk.keeps b' (Set.mem_univ _) 0 (h.blocks b' hb')
  · exact h.once

/-- A handle is given back with its block. -/
theorem Owned.takeBack {s : XmsHost} {m : Machine} {a b : Nat} (h : Owned s)
    (hb : s.xms.handles.lookup a = some b) (hk : KeepsAt { c | c ≠ b } s.machine m) :
    Owned { s with
      machine := m
      xms := ⟨s.xms.handles.erase a, s.xms.sizes.erase a, s.xms.nextHandle⟩
      held := s.held.erase a } := by
  have hlookup : ∀ a' b', (s.xms.handles.erase a).lookup a' = some b' →
      a' ≠ a ∧ s.xms.handles.lookup a' = some b' := by
    intro a' b' hb'
    by_cases haa : a' = a
    · rw [haa, AList.lookup_erase] at hb'
      cases hb'
    · exact ⟨haa, (AList.lookup_erase_ne haa).symm.trans hb'⟩
  have hne : ∀ a' b', a' ≠ a → s.xms.handles.lookup a' = some b' → b' ≠ b := by
    rintro a' b' haa hb' rfl
    exact haa (h.own a' a b' hb' hb)
  constructor
  · exact hk.ok
  · intro a'
    rw [h.nodup.mem_erase_iff, AList.mem_erase, h.held]
  · exact h.nodup.erase a
  · intro a' ha'
    exact h.range a' (List.mem_of_mem_erase ha')
  · intro a' b' hb'
    obtain ⟨haa, hb'⟩ := hlookup a' b' hb'
    obtain ⟨kb, hkb, hst⟩ := h.stands a' b' hb'
    exact ⟨kb, (AList.lookup_erase_ne haa).trans hkb, hk.keeps b' (hne a' b' haa hb') _ hst⟩
  · intro a₁ a₂ b' h₁ h₂
    exact h.own a₁ a₂ b' (hlookup a₁ b' h₁).2 (hlookup a₂ b' h₂).2
  · intro a' b' hb'
    exact h.apart a' b' (hlookup a' b' hb').2
  · intro b' hmem
    refine hk.keeps b' (fun heq => ?_) 0 (h.blocks b' hmem)
    exact h.apart a b hb (heq ▸ hmem)
  · exact h.once

/-- AX=0501 gives a block that nothing stood at. -/
theorem Owned.hold {s : XmsHost} {m : Machine} {b : Nat} (h : Owned s)
    (hk : KeepsAt Set.univ s.machine m) (hst : StandsAt m b 0) (hnew : ¬ StandsAt s.machine b 0) :
    Owned { s with machine := m, blocks := b :: s.blocks } := by
  have hall := h.keepAll hk
  refine ⟨hk.ok, h.held, h.nodup, h.range, hall.stands, h.own, fun a b' hb' hmem => ?_,
    fun b' hmem => ?_, List.nodup_cons.mpr ⟨fun hmem => hnew (h.blocks b hmem), h.once⟩⟩
  · rcases List.mem_cons.mp hmem with rfl | hmem
    · obtain ⟨kb, -, hst'⟩ := h.stands a b' hb'
      exact hnew (hst'.mono (Nat.zero_le _))
    · exact h.apart a b' hb' hmem
  · rcases List.mem_cons.mp hmem with rfl | hmem
    · exact hst
    · exact hall.blocks b' hmem

/-- AX=0502 takes a block that was held. -/
theorem Owned.letGo {s : XmsHost} {m : Machine} {b : Nat} (h : Owned s) (hb : b ∈ s.blocks)
    (hk : KeepsAt { c | c ≠ b } s.machine m) :
    Owned { s with machine := m, blocks := s.blocks.erase b } := by
  refine ⟨hk.ok, h.held, h.nodup, h.range, fun a b' hb' => ?_, h.own, fun a b' hb' hmem => ?_,
    fun b' hmem => ?_, h.once.erase b⟩
  · obtain ⟨kb, hkb, hst⟩ := h.stands a b' hb'
    exact ⟨kb, hkb, hk.keeps b' (fun heq => h.apart a b' hb' (heq ▸ hb)) _ hst⟩
  · exact h.apart a b' hb' (List.mem_of_mem_erase hmem)
  · obtain ⟨hne, hmem⟩ := h.once.mem_erase_iff.mp hmem
    exact hk.keeps b' hne 0 (h.blocks b' hmem)

/-! ### Steps -/

/-- The counter: the handles given so far, modulo 2^16. -/
def Counted (s : XmsHost) : Prop := s.xms.nextHandle = (s.granted + 1) % 65536

/-- 09h gives the handle at the counter with a new block, or nothing. -/
theorem xms_09_cases {x : Xms} {m : Machine} (h : PmOk m) (hx : x.nextHandle < 65536) :
    (∃ b, (xms_09 x m).1 = ⟨x.handles.insert x.nextHandle b, x.sizes.insert x.nextHandle m.dx,
        (x.nextHandle + 1) % 65536⟩ ∧ (xms_09 x m).2.ax = 1 ∧ (xms_09 x m).2.dx = x.nextHandle ∧
      KeepsAt Set.univ m (xms_09 x m).2 ∧ StandsAt (xms_09 x m).2 b (m.dx * 1024) ∧
      ¬ StandsAt m b 0) ∨
    ((xms_09 x m).1 = x ∧ (xms_09 x m).2.ax ≠ 1 ∧ KeepsAt Set.univ m (xms_09 x m).2) := by
  have hdx := m.r16_lt .edx
  have hbytes : (if m.dx * 1024 = 0 then 4096 else m.dx * 1024) < 4294967296 := by
    simp only [dx]
    split <;> omega
  have hge : m.dx * 1024 ≤ if m.dx * 1024 = 0 then 4096 else m.dx * 1024 := by
    split <;> omega
  obtain ⟨hkeep, hgiven⟩ := pmAlloc_stands h hbytes
  unfold xms_09
  dsimp only
  generalize pmAlloc m (if m.dx * 1024 = 0 then 4096 else m.dx * 1024) = r at hkeep hgiven
  by_cases hz : r.2 = 0
  · right
    rw [if_pos hz]
    have hsame : SamePm r.1 ((r.1.setR16 .eax 0).setR8l .ebx 0xA0) := ⟨rfl, rfl, rfl⟩
    refine ⟨rfl, ?_, hkeep.same hsame⟩
    have hax : ((r.1.setR16 .eax 0).setR8l .ebx 0xA0).ax = (r.1.setR16 .eax 0).ax := rfl
    rw [hax, ax, r16_setR16]
    decide
  · left
    obtain ⟨hst, hnew, -, -⟩ := hgiven hz
    rw [if_neg hz]
    have hsame := samePm_of_sameHost (sameHost_setR16s r.1 [(.eax, 1), (.edx, x.nextHandle)])
    refine ⟨r.2, rfl, ?_, ?_, hkeep.same hsame, hsame.stands.mpr (hst.mono hge), hnew⟩
    · simp only [setR16s, List.foldl, ax, r16_setR16, ne_eq, reduceCtorEq, not_false_eq_true,
        r16_setR16_of_ne]
    · simp only [setR16s, List.foldl, dx, r16_setR16]
      exact Nat.mod_eq_of_lt hx

theorem xms_0A_cases {x : Xms} {m : Machine} (h : PmOk m) :
    (∃ b, x.handles.lookup m.dx = some b ∧
      (xms_0A x m).1 = ⟨x.handles.erase m.dx, x.sizes.erase m.dx, x.nextHandle⟩ ∧
      (xms_0A x m).2.ax = 1 ∧ KeepsAt { c | c ≠ b } m (xms_0A x m).2) ∨
    ((xms_0A x m).1 = x ∧ (xms_0A x m).2.ax ≠ 1 ∧ KeepsAt Set.univ m (xms_0A x m).2) := by
  unfold xms_0A
  cases hb : x.handles.lookup m.dx with
  | none =>
    right
    have hsame : SamePm m ((m.setR16 .eax 0).setR8l .ebx 0xA2) := ⟨rfl, rfl, rfl⟩
    refine ⟨rfl, ?_, (KeepsAt.refl h).same hsame⟩
    have hax : ((m.setR16 .eax 0).setR8l .ebx 0xA2).ax = (m.setR16 .eax 0).ax := rfl
    rw [hax, ax, r16_setR16]
    decide
  | some b =>
    left
    refine ⟨b, rfl, rfl, ?_, (pmFree_stands h b).same (samePm_of_sameHost (sameHost_setR16 _ _ _))⟩
    dsimp only
    rw [ax, r16_setR16]

/-- A step gives the handle at the counter, or none. -/
theorem xmsStep_granted {s t : XmsHost} {e : XmsEvent} (hpm : PmOk s.machine) (hc : Counted s)
    (hs : xmsStep s e t) :
    (t.granted = s.granted ∧ Counted t) ∨
      (t.granted = s.granted + 1 ∧ t.held = s.xms.nextHandle :: s.held ∧ Counted t) := by
  have hlt : s.xms.nextHandle < 65536 := hc ▸ Nat.mod_lt _ (by decide)
  have hanswered : ∀ {r : Reply} {f}, answered s r f = some t → t.granted = s.granted ∧ Counted t := by
    intro r f ht
    obtain ⟨p, -, rfl⟩ := Option.map_eq_some_iff.mp ht
    exact ⟨rfl, hc⟩
  cases e with
  | guest cpu mem =>
    obtain rfl := Option.some.inj hs
    exact Or.inl ⟨rfl, hc⟩
  | fn09 =>
    simp only [xmsStep, xmsNext] at hs
    rcases xms_09_cases (x := s.xms) hpm hlt with ⟨b, hx, hax, hdx, -⟩ | ⟨hx, hax, -⟩
    · rw [if_pos hax] at hs
      obtain rfl := Option.some.inj hs
      refine Or.inr ⟨rfl, by rw [hdx], ?_⟩
      simp only [Counted, hx]
      rw [hc]
      omega
    · rw [if_neg hax] at hs
      obtain rfl := Option.some.inj hs
      exact Or.inl ⟨rfl, by simp only [Counted, hx]; exact hc⟩
  | fn0A =>
    simp only [xmsStep, xmsNext] at hs
    rcases xms_0A_cases (x := s.xms) hpm with ⟨b, -, hx, hax, -⟩ | ⟨hx, hax, -⟩
    · rw [if_pos hax] at hs
      obtain rfl := Option.some.inj hs
      exact Or.inl ⟨rfl, by simp only [Counted, hx]; exact hc⟩
    · rw [if_neg hax] at hs
      obtain rfl := Option.some.inj hs
      exact Or.inl ⟨rfl, by simp only [Counted, hx]; exact hc⟩
  | ax0501 => exact Or.inl (hanswered hs)
  | ax0502 => exact Or.inl (hanswered hs)
  | ax0503 => exact Or.inl (hanswered hs)

theorem samePm_setCf (m : Machine) (v : Bool) : SamePm m (setCf m v) := ⟨rfl, rfl, rfl⟩

theorem xmsStep_owned {s t : XmsHost} {e : XmsEvent} (h : Owned s) (hc : Counted s)
    (hp : Proper s e) (hs : xmsStep s e t) (hle : t.granted ≤ 65535) : Owned t := by
  have hlt : s.xms.nextHandle < 65536 := hc ▸ Nat.mod_lt _ (by decide)
  cases e with
  | guest cpu mem =>
    obtain rfl := Option.some.inj hs
    exact h.keepAll ((KeepsAt.refl h.pm).same ⟨rfl, rfl, rfl⟩)
  | fn09 =>
    simp only [xmsStep, xmsNext] at hs
    rcases xms_09_cases (x := s.xms) h.pm hlt with ⟨b, hx, hax, hdx, hk, hst, hnew⟩ | ⟨hx, hax, hk⟩
    · rw [if_pos hax] at hs
      obtain rfl := Option.some.inj hs
      have ha : s.xms.nextHandle = s.granted + 1 := by
        rw [hc]
        dsimp only at hle
        omega
      rw [hx, hdx]
      exact h.give hk hst hnew ha
    · rw [if_neg hax] at hs
      obtain rfl := Option.some.inj hs
      rw [hx]
      exact h.keepAll hk
  | fn0A =>
    simp only [xmsStep, xmsNext] at hs
    rcases xms_0A_cases (x := s.xms) h.pm with ⟨b, hb, hx, hax, hk⟩ | ⟨hx, hax, hk⟩
    · rw [if_pos hax] at hs
      obtain rfl := Option.some.inj hs
      rw [hx]
      exact h.takeBack hb hk
    · rw [if_neg hax] at hs
      obtain rfl := Option.some.inj hs
      rw [hx]
      exact h.keepAll hk
  | ax0501 =>
    obtain ⟨r, hr, rfl⟩ := Option.map_eq_some_iff.mp hs
    obtain ⟨hk, hgiven⟩ := int31_0501_stands h.pm hr
    have hk' := hk.same (samePm_setCf r.1 r.2)
    dsimp only
    split
    · rename_i hok
      obtain ⟨hst, hnew⟩ := hgiven hok.1 hok.2
      exact h.hold hk' ((samePm_setCf r.1 r.2).stands.mpr hst) hnew
    · exact h.keepAll hk'
  | ax0502 =>
    obtain ⟨r, hr, rfl⟩ := Option.map_eq_some_iff.mp hs
    have hk := (int31_0502_stands h.pm hr).same (samePm_setCf r.1 r.2)
    dsimp only
    split
    · rename_i hok
      exact h.letGo (hp.1 hok.2) ⟨hk.ok, fun b hb => hk.keeps b fun _ _ => hb⟩
    · rename_i hok
      have hall : ∀ b, b ∈ { b | s.machine.si ≠ 0 → r.2 = false → b ≠ handleArg s.machine } :=
        fun b hsi hr2 => absurd ⟨hr2, hsi⟩ hok
      exact h.keepAll ⟨hk.ok, fun b _ => hk.keeps b (hall b)⟩
  | ax0503 =>
    obtain ⟨r, hr, rfl⟩ := Option.map_eq_some_iff.mp hs
    obtain ⟨hk, hbase⟩ := int31_0503_stands h.pm hr (hp.2 rfl)
    have hsame := samePm_setCf r.1 r.2
    refine h.keep (hk.same hsame) (fun a b hb hsi heq => ?_) fun b hb => ?_
    · exact h.apart a b hb (heq ▸ hp.1 hsi)
    · by_cases heq : b = handleArg s.machine
      · rw [heq] at hb ⊢
        exact hsame.stands.mpr (hbase (h.blocks _ hb))
      · exact hsame.stands.mpr (hk.keeps b (fun _ => heq) 0 (h.blocks b hb))

/-! ### Whole runs -/

/-- The host at start: no handle was given, and AX=0501 has given no block yet. -/
structure Fresh (s : XmsHost) : Prop where
  pm : PmOk s.machine
  xms : s.xms = xmsStart
  held : s.held = []
  blocks : s.blocks = []
  granted : s.granted = 0

theorem Fresh.owned {s : XmsHost} (h : Fresh s) : Owned s := by
  obtain ⟨m, x, held, blocks, granted⟩ := s
  obtain ⟨hpm, hx, hheld, hblocks, hgranted⟩ := h
  dsimp only at hpm hx hheld hblocks hgranted
  subst hx hheld hblocks hgranted
  refine ⟨hpm, fun a => ?_, List.nodup_nil, by simp, fun a b hb => ?_, fun a a' b hb => ?_,
    fun a b hb => ?_, by simp, List.nodup_nil⟩
  · exact ⟨fun ha => absurd ha (by simp), fun ha => absurd ha (AList.notMem_empty a)⟩
  · cases hb
  · cases hb
  · cases hb

theorem Fresh.counted {s : XmsHost} (h : Fresh s) : Counted s := by
  rw [Counted, h.xms, h.granted]
  rfl

theorem xmsStep_le {s t : XmsHost} {e : XmsEvent} (hs : xmsStep s e t) : s.granted ≤ t.granted := by
  have hanswered : ∀ {r : Reply} {f}, answered s r f = some t → s.granted ≤ t.granted := by
    intro r f ht
    obtain ⟨p, -, rfl⟩ := Option.map_eq_some_iff.mp ht
    exact Nat.le_refl _
  cases e with
  | guest cpu mem =>
    obtain rfl := Option.some.inj hs
    exact Nat.le_refl _
  | fn09 =>
    simp only [xmsStep, xmsNext] at hs
    split at hs
    · obtain rfl := Option.some.inj hs
      exact Nat.le_succ _
    · obtain rfl := Option.some.inj hs
      exact Nat.le_refl _
  | fn0A =>
    simp only [xmsStep, xmsNext] at hs
    split at hs
    · obtain rfl := Option.some.inj hs
      exact Nat.le_refl _
    · obtain rfl := Option.some.inj hs
      exact Nat.le_refl _
  | ax0501 => exact hanswered hs
  | ax0502 => exact hanswered hs
  | ax0503 => exact hanswered hs

theorem granted_le {s t : XmsHost} {es : List XmsEvent} (hrun : Guarded xmsStep Proper s es t) :
    s.granted ≤ t.granted := by
  induction hrun with
  | nil s => exact Nat.le_refl _
  | cons _ hs _ ih => exact (xmsStep_le hs).trans ih

theorem sound_of_le {s t : XmsHost} {es : List XmsEvent} (hrun : Guarded xmsStep Proper s es t) :
    Owned s → Counted s → t.granted ≤ 65535 → SoundRun s es t := by
  induction hrun with
  | nil s => exact fun h _ _ => .nil h.sound
  | @cons s u t e es hg hs rest ih =>
    intro h hc hle
    have hu : Owned u := xmsStep_owned h hc hg hs ((granted_le rest).trans hle)
    have hcu : Counted u := by
      rcases xmsStep_granted h.pm hc hs with ⟨-, hcu⟩ | ⟨-, -, hcu⟩
      · exact hcu
      · exact hcu
    exact .cons hg h.sound hs (ih hu hcu hle)

theorem le_of_sound {s t : XmsHost} {es : List XmsEvent}
    (hrun : Guarded xmsStep (fun s e => Proper s e ∧ XmsSound s) s es t) :
    XmsSound t → Owned s → Counted s → s.granted ≤ 65535 → t.granted ≤ 65535 := by
  induction hrun with
  | nil s => exact fun _ _ _ hle => hle
  | @cons s u t e es hg hs rest ih =>
    intro hlast h hc hle
    have hfirst : XmsSound u := Throughout.first ⟨rest, hlast⟩
    obtain ⟨hu, hcu⟩ : u.granted ≤ 65535 ∧ Counted u := by
      rcases xmsStep_granted h.pm hc hs with ⟨hg, hcu⟩ | ⟨hg, hheld, hcu⟩
      · exact ⟨hg ▸ hle, hcu⟩
      · refine ⟨?_, hcu⟩
        by_contra hgt
        -- the 65536th allocation gives handle 0
        have hz : s.xms.nextHandle = 0 := by
          rw [hc]
          omega
        exact hfirst.nonzero (by rw [hheld, hz]; exact List.mem_cons_self)
    exact ih hlast (xmsStep_owned h hc hg.1 hs hu) hcu hu

/-- **XMS handles and DPMI blocks.**  In a run whose AX=0502 and AX=0503 calls get blocks that are
    held, and whose AX=0503 calls do not wrap, every handle owns its block in every state exactly
    where the run gives at most 65535 handles. -/
theorem xmsHandles_sound_iff {s t : XmsHost} {es : List XmsEvent} (h : Fresh s)
    (hrun : Guarded xmsStep Proper s es t) : SoundRun s es t ↔ t.granted ≤ 65535 := by
  constructor
  · intro hsound
    exact le_of_sound hsound.1 hsound.2 h.owned h.counted (h.granted ▸ Nat.zero_le _)
  · exact sound_of_le hrun h.owned h.counted

/-! ### Two runs from boot -/

def xmsBoot : XmsHost := ⟨bootMachine, xmsStart, [], [], 0⟩

theorem fresh_boot : Fresh xmsBoot := ⟨memOk_boot.pm, rfl, rfl, rfl, rfl⟩

/-- DX, BX:CX and SI:DI, every other register 0. -/
def xmsCpu (dx bx cx si di : BitVec 32) : Cpu :=
  { zeroCpu with
    regs := fun
      | .edx => dx
      | .ebx => bx
      | .ecx => cx
      | .esi => si
      | .edi => di
      | _ => 0 }

/-- The state after the events, where each of them can be taken. -/
def runXms (s : XmsHost) : List XmsEvent → Option XmsHost
  | [] => some s
  | e :: es => (xmsNext s e).bind fun t => runXms t es

theorem guarded_runXms {G : XmsHost → XmsEvent → Prop} {es : List XmsEvent} :
    ∀ {s t : XmsHost}, (∀ s, ∀ e ∈ es, G s e) → runXms s es = some t → Guarded xmsStep G s es t := by
  induction es with
  | nil =>
    intro s t _ h
    obtain rfl := Option.some.inj h
    exact .nil s
  | cons e es ih =>
    intro s t hG h
    obtain ⟨u, hu, hrest⟩ := Option.bind_eq_some_iff.mp h
    exact .cons (hG s e List.mem_cons_self) hu
      (ih (fun s e he => hG s e (List.mem_cons_of_mem _ he)) hrest)

/-- A handle of 64 KB is taken, and given back. -/
def takeAndReturn : List XmsEvent :=
  [.guest (xmsCpu 64 0 0 0 0) bootMachine.mem, .fn09, .guest (xmsCpu 1 0 0 0 0) bootMachine.mem, .fn0A]

theorem xmsHandles_sound_iff_returned : ∃ t, SoundRun xmsBoot takeAndReturn t ∧ t.granted = 1 := by
  have hgranted : (runXms xmsBoot takeAndReturn).map (fun s => s.granted) = some 1 := by
    decide +kernel
  obtain ⟨t, ht, hone⟩ := Option.map_eq_some_iff.mp hgranted
  have hproper : ∀ s, ∀ e ∈ takeAndReturn, Proper s e := by
    intro s e he
    simp only [takeAndReturn, List.mem_cons, List.not_mem_nil, or_false] at he
    rcases he with rfl | rfl | rfl | rfl
    · exact ⟨trivial, fun h => by cases h⟩
    · exact ⟨trivial, fun h => by cases h⟩
    · exact ⟨trivial, fun h => by cases h⟩
    · exact ⟨trivial, fun h => by cases h⟩
  refine ⟨t, (xmsHandles_sound_iff fresh_boot (guarded_runXms hproper ht)).mpr ?_, hone⟩
  rw [hone]
  decide

/-- AX=0501 gives 64 KB at 120000h, 09h the 64 KB behind them; AX=0503 is about to ask for
    FFFFF000h bytes at 120000h. -/
def stretchOver : List XmsEvent :=
  [.guest (xmsCpu 0 1 0 0 0) bootMachine.mem, .ax0501, .guest (xmsCpu 64 0 0 0 0) bootMachine.mem,
    .fn09, .guest (xmsCpu 0 0xFFFF 0xF000 0x12 0) bootMachine.mem]

/-- AX=0503 answers success, and the block it was given lies over that of the handle. -/
theorem xmsHandle_overlaid :
    ¬ ∀ es t, Guarded xmsStep Holds xmsBoot es t → XmsSound t := by
  intro hall
  have hrun : (runXms xmsBoot stretchOver).map (fun s => (handleArg s.machine, s.blocks)) =
      some (0x120000, [0x120000]) := by decide +kernel
  have hlast : ((runXms xmsBoot stretchOver).bind fun s => xmsNext s .ax0503).map (fun t =>
      (t.held, t.blocks, t.xms.handles.lookup 1, t.machine.pmBusy)) =
      some ([1], [0x120000], some 0x130000, [⟨0x120000, 0xFFFFF000⟩, ⟨0x130000, 0x10000⟩]) := by
    decide +kernel
  obtain ⟨s, hs, hheld⟩ := Option.map_eq_some_iff.mp hrun
  rw [hs, Option.bind_some] at hlast
  obtain ⟨t, ht, hfacts⟩ := Option.map_eq_some_iff.mp hlast
  simp only [Prod.mk.injEq] at hheld hfacts
  obtain ⟨hhandle, hblocks⟩ := hheld
  obtain ⟨hone, hgave, hlookup, hbusy⟩ := hfacts
  have hholds : ∀ s, ∀ e ∈ stretchOver, Holds s e := by
    intro s e he
    simp only [stretchOver, List.mem_cons, List.not_mem_nil, or_false] at he
    rcases he with rfl | rfl | rfl | rfl | rfl <;> trivial
  have hguard : Guarded xmsStep Holds xmsBoot (stretchOver ++ [.ax0503]) t := by
    refine (guarded_runXms hholds hs).append (.cons (fun _ => ?_) ht (.nil t))
    rw [hhandle, hblocks]
    exact List.mem_singleton_self _
  obtain ⟨kb, -, e, -, hbase, -, -, -, -, hblock⟩ := (hall _ t hguard).owns 1 (by simp [hone])
  have hap := hblock ⟨0x120000, 0xFFFFF000⟩ (by rw [hbusy]; exact List.mem_cons_self)
    (by rw [hgave]; exact List.mem_singleton_self _)
  rw [hlookup] at hbase
  simp only [Apart, Extent.stop] at hap
  have hb := Option.some.inj hbase
  omega

end Dosiz.XmsHandles
