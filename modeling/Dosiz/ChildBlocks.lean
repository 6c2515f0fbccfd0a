/-
  Dosiz/ChildBlocks.lean
  ======================
  **Where AH=4B writes** (INT 21h AH=4B AL=0 and AL=1, `load_com_at` and `load_exe_at` of
  `bridge.cc`).

  AH=4B takes a block for the child from the MCB chain, and with AL=0 another for its
  environment.  The loader is not told how large the block is.  `Taken` is what a block
  taken from free memory changes; `loadsInside_iff` says when the two calls keep to
  their blocks.
-/
import Dosiz.BlockHandles
import Dosiz.ChildEnv

namespace Dosiz.ChildBlocks

open ByteMemory BlockChain Machine Mcb ChildEnv

/-! ### What a loader writes -/

/-- The words the relocations of an MZ file name lie in `[start, stop)`, loaded at `loadSeg`. -/
def RelocsFit (f : List UInt8) (h : MzHeader) (loadSeg start stop : Nat) : Prop :=
  ∀ i < h.relocCount, ∀ off seg, rdw f (h.relocOff + i * 4) = some off →
    rdw f (h.relocOff + i * 4 + 2) = some seg →
      start ≤ (loadSeg + seg) * 16 + off ∧ (loadSeg + seg) * 16 + off + 2 ≤ stop

theorem relocate_off {f : List UInt8} {loadSeg table start stop : Nat} : ∀ {n i : Nat} {mem : Mem}
    {r : Mem × Bool}, relocate f loadSeg table n i mem = some r →
      (∀ j, i ≤ j → j < i + n → ∀ off seg, rdw f (table + j * 4) = some off →
        rdw f (table + j * 4 + 2) = some seg →
          start ≤ (loadSeg + seg) * 16 + off ∧ (loadSeg + seg) * 16 + off + 2 ≤ stop) →
        AgreesOff (Set.Ico start stop) mem r.1
  | 0, _, mem, r, h, _ => by
    cases h
    exact AgreesOff.refl _ _
  | n + 1, i, mem, r, h, hfit => by
    unfold relocate at h
    dsimp only at h
    split at h
    · cases h
      exact AgreesOff.refl _ _
    · simp only [Option.bind_eq_bind, Option.bind_eq_some_iff] at h
      obtain ⟨off, hoff, seg, hseg, h⟩ := h
      obtain ⟨hlow, hhigh⟩ := hfit i le_rfl (by omega) off seg hoff hseg
      have hword := (writew_off mem ((loadSeg + seg) * 16 + off)
        (readw mem ((loadSeg + seg) * 16 + off) + loadSeg)).mono (T := Set.Ico start stop)
          fun x hx => ⟨hlow.trans hx.1, hx.2.trans_le hhigh⟩
      refine hword.trans (relocate_off h fun j hj hj' => ?_)
      exact hfit j (by omega) (by omega)

theorem readBytes_length {f : List UInt8} : ∀ {n off : Nat} {bs : List Nat},
    readBytes f off n = some bs → bs.length = n
  | 0, _, _, h => by
    cases h
    rfl
  | n + 1, _, _, h => by
    unfold readBytes at h
    simp only [Option.bind_eq_bind, Option.bind_eq_some_iff] at h
    obtain ⟨b, -, bs, hbs, h⟩ := h
    cases h
    rw [List.length_cons, readBytes_length hbs]

/-- The image of an MZ file and the words relocated end before `stop`, in a block that starts at
    `psp`. -/
def MzFits (f : List UInt8) (psp stop : Nat) : Prop :=
  ∀ h, readMzHeader f = some h → h.headerParas * 16 ≤ h.totalBytes → h.totalBytes ≤ f.length →
    (psp + 0x10) * 16 + (h.totalBytes - h.headerParas * 16) ≤ stop ∧
      RelocsFit f h (psp + 0x10) (psp * 16) stop

/-- So does a COM image. -/
def ComFits (f : List UInt8) (psp stop : Nat) : Prop :=
  f.length ≤ MAX_COM_SIZE → psp * 16 + COM_ENTRY_OFFSET + f.length ≤ stop

/-- The program file in `path` ends before `stop`. -/
def ImageFits (host : Host) (path : List Nat) (psp stop : Nat) : Prop :=
  let f := (host.contents path).getD []
  if hasMz f || isExePath path then MzFits f psp stop else ComFits f psp stop

/-- The file is no linear executable, or it is loaded as an MZ file. -/
def Plain (host : Host) (path : List Nat) : Prop :=
  let f := (host.contents path).getD []
  ∀ extender le, extenderDetected host f = some extender → linearAt host f extender ≠ some (some le)

/-- `load_exe_at` takes the file in `path` for a linear executable with its header at `le`. -/
def LinearFile (host : Host) (path : List Nat) (le : Nat) : Prop :=
  let f := (host.contents path).getD []
  (hasMz f || isExePath path) = true ∧ ¬ (f.length < 0x1C ∨ !(hasMz f || f.take 2 = [0x5A, 0x4D])) ∧
    extenderDetected host f = some false ∧ linearAt host f false = some (some le)

theorem Plain.not_linear {host : Host} {path : List Nat} (h : Plain host path) (le : Nat) :
    ¬ LinearFile host path le := fun hlin => h false le hlin.2.2.1 hlin.2.2.2

/-- A file bound to an extender is loaded as an MZ file. -/
theorem linearAt_extender {host : Host} {f : List UInt8} {extender : Bool} {le : Nat}
    (h : linearAt host f extender = some (some le)) : extender = false := by
  cases extender with
  | false => rfl
  | true =>
    unfold linearAt at h
    rw [Bool.true_or, Bool.true_or, if_pos rfl] at h
    cases h

theorem loadMz_inside {f : List UInt8} {m : Machine} {psp stop : Nat} {r : Machine × Option InitialRegs}
    (hpsp : psp + 0x10 < 65536) (h : loadMz f m psp = some r) (hfit : MzFits f psp stop) :
    ∃ mem, r.1 = m.setMem mem ∧ AgreesOff (Set.Ico (psp * 16) stop) m.mem mem := by
  unfold loadMz at h
  simp only [Option.bind_eq_bind, Option.bind_eq_some_iff, Nat.mod_eq_of_lt hpsp] at h
  obtain ⟨hd, hhd, h⟩ := h
  split at h
  · cases h
    exact ⟨m.mem, rfl, AgreesOff.refl _ _⟩
  · rename_i hsize
    simp only [Option.bind_eq_some_iff] at h
    obtain ⟨image, himage, p, hp, h⟩ := h
    cases h
    obtain ⟨hend, hrel⟩ := hfit hd hhd (by omega) (by omega)
    refine ⟨p.1, rfl, ?_⟩
    have himg := (storeBytes_off m.mem ((psp + 0x10) * 16) image).mono (T := Set.Ico (psp * 16) stop)
      fun x hx => ⟨le_trans (by omega) hx.1, hx.2.trans_le (by rw [readBytes_length himage]; exact hend)⟩
    refine himg.trans (relocate_off hp fun j _ hj => ?_)
    exact hrel j (by omega)

/-- Loading a plain program writes inside the block, and sets the extender flag at most. -/
theorem loadProgramAt_inside {host : Host} {path : List Nat} {m : Machine} {psp stop : Nat}
    {r : Machine × Option InitialRegs} (hpsp : psp + 0x10 < 65536)
    (h : loadProgramAt host path m psp = some r) (hplain : ∀ le, ¬ LinearFile host path le)
    (hfit : ImageFits host path psp stop) : ∃ mem flag,
      r.1 = { m with mem := mem, extenderBound := flag } ∧
        AgreesOff (Set.Ico (psp * 16) stop) m.mem mem := by
  unfold loadProgramAt at h
  unfold ImageFits at hfit
  unfold LinearFile at hplain
  dsimp only at h hfit hplain
  generalize (host.contents path).getD [] = f at h hfit hplain
  split_ifs at h hfit with hexe
  · unfold loadExeAt at h
    split at h
    · cases h
      exact ⟨m.mem, m.extenderBound, rfl, AgreesOff.refl _ _⟩
    · rename_i hgood
      simp only [Option.bind_eq_bind, Option.bind_eq_some_iff] at h
      obtain ⟨extender, hext, linear, hlin, h⟩ := h
      cases linear with
      | some le =>
        obtain rfl := linearAt_extender hlin
        exact absurd ⟨hexe, hgood, hext, hlin⟩ (hplain le)
      | none =>
        obtain ⟨mem, hr, hoff⟩ := loadMz_inside hpsp h hfit
        rw [hr]
        cases extender with
        | false => exact ⟨mem, m.extenderBound, rfl, hoff⟩
        | true => exact ⟨mem, true, rfl, hoff⟩
  · cases h
    unfold loadComAt
    split_ifs with hbad
    · exact ⟨m.mem, m.extenderBound, rfl, AgreesOff.refl _ _⟩
    · rw [not_or, Nat.not_lt] at hbad
      have hend := hfit hbad.2
      refine ⟨_, m.extenderBound, rfl, (storeBytes_off _ _ _).mono fun x hx => ⟨?_, ?_⟩⟩
      · exact (Nat.le_add_right _ _).trans hx.1
      · have h₂ := hx.2
        rw [List.length_map] at h₂
        exact h₂.trans_le hend

/-! ### Blocks cut from free memory -/

/-- The bytes of the block with data segment `s`. -/
def dataBytes (s : Nat) (b : Block Nat) : Set Nat := Set.Ico (s * 16) ((s + b.size) * 16)

/-- The headers of the blocks of `bs'` that `bs` does not have. -/
def cut (bs bs' : List (Block Nat)) : Set Nat :=
  { x | ∃ q b, (q, b) ∈ place MCB_ARENA_START bs' ∧ (q, b) ∉ place MCB_ARENA_START bs ∧ x ∈ hdrBytes q }

theorem eq_of_readb {mem mem' : Mem} {a : Nat} (h : readb mem' a = readb mem a) : mem' a = mem a :=
  UInt8.toNat_inj.mp h

theorem eq_of_readw {mem mem' : Mem} {a : Nat} (h : readw mem' a = readw mem a) :
    mem' a = mem a ∧ mem' (a + 1) = mem (a + 1) := by
  have h₁ := readb_lt mem a
  have h₂ := readb_lt mem' a
  simp only [readw] at h
  exact ⟨eq_of_readb (by omega), eq_of_readb (by omega)⟩

/-- The five bytes of a header say nothing but what it describes. -/
theorem header_eq {mem mem' : Mem} {q : Nat} {last : Bool} {b : Block Nat} (h : HeaderAt mem q last b)
    (h' : HeaderAt mem' q last b) {x : Nat} (hx : x ∈ hdrBytes q) : mem' x = mem x := by
  have htype := eq_of_readb (h'.type.trans h.type.symm)
  have howner := eq_of_readw (h'.owner.trans h.owner.symm)
  have hsize := eq_of_readw (h'.size.trans h.size.symm)
  have hlow := hx.1
  have hhigh := hx.2
  obtain rfl | rfl | rfl | rfl | rfl : x = q * 16 ∨ x = q * 16 + 1 ∨ x = q * 16 + 1 + 1 ∨
      x = q * 16 + 3 ∨ x = q * 16 + 3 + 1 := by omega
  · exact htype
  · exact howner.1
  · exact howner.2
  · exact hsize.1
  · exact hsize.2

theorem span_eq_zero_iff {bs : List (Block Nat)} : span bs = 0 ↔ bs = [] := by
  cases bs with
  | nil => exact iff_of_true rfl rfl
  | cons b bs =>
    refine iff_of_false ?_ (List.cons_ne_nil b bs)
    rw [span_cons]
    omega

/-- The header of a placed block; the last one is where the arena ends. -/
theorem chain_header {mem : Mem} {bs : List (Block Nat)} (h : Chain mem bs) {q : Nat} {b : Block Nat}
    (hm : (q, b) ∈ place MCB_ARENA_START bs) :
    HeaderAt mem q (decide (q + 1 + b.size = MCB_ARENA_END)) b := by
  obtain ⟨pre, post, rfl, rfl⟩ := mem_place_iff.mp hm
  have hspan := h.span_eq
  have hlast : post.isEmpty = decide (MCB_ARENA_START + span pre + 1 + b.size = MCB_ARENA_END) := by
    rw [Bool.eq_iff_iff, decide_eq_true_eq, List.isEmpty_iff, ← span_eq_zero_iff]
    simp only [MCB_ARENA_START, MCB_ARENA_END]
    omega
  rw [← hlast]
  exact h.header

/-- Writing headers so that a chain comes out changes those of the new blocks only. -/
theorem cut_off {mem mem' : Mem} {bs bs' : List (Block Nat)} (h : Chain mem bs) (h' : Chain mem' bs')
    (hoff : AgreesOff (headerBytes bs') mem mem') : AgreesOff (cut bs bs') mem mem' := by
  intro x hx
  by_cases hhead : x ∈ headerBytes bs'
  · obtain ⟨q, b, hm, h₁, h₂⟩ := hhead
    have hxq : x ∈ hdrBytes q := ⟨h₁, h₂⟩
    by_cases hold : (q, b) ∈ place MCB_ARENA_START bs
    · exact header_eq (chain_header h hold) (chain_header h' hm) hxq
    · exact absurd ⟨q, b, hm, hold, hxq⟩ hx
  · exact hoff x hhead

/-- From `m` to `m'` the block `b` with data segment `s` has been taken from free memory; bytes have
    changed in it, and in headers of blocks that were none before. -/
structure Taken (m m' : Machine) (bs bs' : List (Block Nat)) (s : Nat) (b : Block Nat) : Prop where
  init : m'.mcbInitialised = true
  chain : Chain m'.mem bs'
  pos : 0 < s
  allocated : ∀ q c, Allocated bs' q c ↔ Allocated bs q c ∨ (q = s - 1 ∧ c = b)
  fresh : ∀ c, ¬ Allocated bs (s - 1) c
  places : ∀ q c, (q, c) ∈ place MCB_ARENA_START bs → (q, c) ∈ place MCB_ARENA_START bs' ∨ q = s - 1
  off : AgreesOff (dataBytes s b ∪ cut bs bs') m.mem m'.mem

section Blocks

variable {m m' m'' : Machine} {bs bs' bs'' : List (Block Nat)} {s t : Nat} {b c : Block Nat}

theorem Taken.block (h : Taken m m' bs bs' s b) : Allocated bs' (s - 1) b :=
  (h.allocated _ _).mpr (Or.inr ⟨rfl, rfl⟩)

theorem Taken.bounds (h : Taken m m' bs bs' s b) :
    MCB_ARENA_START < s ∧ s + b.size ≤ MCB_ARENA_END := by
  have hb := place_bounds h.block.1
  have ht := h.chain.tiles
  have hs := h.pos
  omega

/-- The block's own bytes are no header's. -/
theorem Taken.data_inside (h : Taken m m' bs bs' s b) {x : Nat} (hx : x ∈ dataBytes s b) :
    x ∉ headerBytes bs' := by
  have hs := h.pos
  have h₁ := hx.1
  have h₂ := hx.2
  exact not_headerBytes_of_data h.block.1 (by omega) (by omega)

theorem Taken.write (h : Taken m m' bs bs' s b) {mem : Mem} (hmem : AgreesOff (dataBytes s b) m'.mem mem)
    (hi : m''.mcbInitialised = true) (hm'' : m''.mem = mem) : Taken m m'' bs bs' s b where
  init := hi
  chain := by
    rw [hm'']
    exact h.chain.frame hmem fun x hx => h.data_inside hx
  pos := h.pos
  allocated := h.allocated
  fresh := h.fresh
  places := h.places
  off := by
    rw [hm'']
    exact h.off.trans (hmem.mono Set.subset_union_left)

theorem mcbAllocate_taken {need l : Nat} (hi : m.mcbInitialised = true) (hc : Chain m.mem bs)
    (h : mcbAllocate m need = some (m', s, l)) (hs : s ≠ 0) :
    (∃ bs' b, Taken m m' bs bs' s b ∧ need ≤ b.size) ∧ m' = m.setMem m'.mem := by
  have hready := mcbReady_of_init hi
  have hc' : Chain (mcbReady m).mem bs := by
    rw [hready]
    exact hc
  rcases mcbAllocate_firstFit hc' need with
    ⟨pre, b, post, mem, l', rfl, hfree, hneed, -, halloc, hchain, hoff⟩ | ⟨halloc, -⟩
  · rw [hready] at halloc hoff
    obtain ⟨rfl, rfl, -⟩ : m' = { m with mem := mem } ∧ s = MCB_ARENA_START + span pre + 1 ∧ l = l' := by
      simpa using h.symm.trans halloc
    have hpred : MCB_ARENA_START + span pre + 1 - 1 = MCB_ARENA_START + span pre := Nat.add_sub_cancel _ _
    refine ⟨⟨_, ⟨PSP_SEG, carvedSize need b.size⟩, ⟨hi, hchain, Nat.succ_pos _, ?_, ?_, ?_, ?_⟩,
      carvedSize_ge hneed⟩, rfl⟩
    · intro q c
      rw [hpred]
      exact allocated_alloc hfree need q c
    · rw [hpred]
      rintro c ⟨hm, htag⟩
      exact htag (by rw [place_inj hm (mem_place_mid pre post b), hfree])
    · intro q c hm
      rw [hpred, mem_place_append₃]
      rw [List.append_cons, mem_place_append₃] at hm
      rcases hm with hm | hm | hm
      · exact Or.inl (Or.inl hm)
      · simp only [place, List.mem_singleton, Prod.mk.injEq] at hm
        exact Or.inr hm.1
      · refine Or.inl (Or.inr (Or.inr ?_))
        rw [span_carve]
        simpa using hm
    · exact (cut_off hc hchain hoff).mono Set.subset_union_right
  · rw [hready, h, Option.some.injEq, Prod.mk.injEq, Prod.mk.injEq] at halloc
    exact absurd halloc.2.1 hs

/-- An allocation that fails changes nothing. -/
theorem mcbAllocate_none {need l : Nat} (hi : m.mcbInitialised = true) (hc : Chain m.mem bs)
    (h : mcbAllocate m need = some (m', 0, l)) : m' = m := by
  have hready := mcbReady_of_init hi
  have hc' : Chain (mcbReady m).mem bs := by
    rw [hready]
    exact hc
  rcases mcbAllocate_firstFit hc' need with ⟨_, _, _, _, _, -, -, -, -, halloc, -⟩ | ⟨halloc, -⟩
  · rw [h, Option.some.injEq, Prod.mk.injEq, Prod.mk.injEq] at halloc
    exact absurd halloc.2.1.symm (Nat.succ_ne_zero _)
  · rw [h, Option.some.injEq, Prod.mk.injEq, hready] at halloc
    exact halloc.1

/-- A second block is taken from what the first has left. -/
theorem Taken.cut_subset (h : Taken m m' bs bs' s b) (h' : Taken m' m'' bs' bs'' t c) :
    cut bs bs' ∪ cut bs' bs'' ⊆ cut bs bs'' := by
  have hmono : ∀ q d, Allocated bs q d → Allocated bs' q d := fun q d hd =>
    (h.allocated q d).mpr (Or.inl hd)
  rintro x (⟨q, d, hm, hold, hx⟩ | ⟨q, d, hm, hold, hx⟩)
  · rcases h'.places q d hm with hm' | rfl
    · exact ⟨q, d, hm', hold, hx⟩
    · refine ⟨_, c, h'.block.1, fun hc => ?_, hx⟩
      exact h'.fresh c (hmono _ _ ⟨hc, h'.block.2⟩)
  · refine ⟨q, d, hm, fun hd => ?_, hx⟩
    rcases h.places q d hd with hd' | rfl
    · exact hold hd'
    · -- what stands where the first block was cut is that block
      have hb := h.block
      have hb' := (h'.allocated _ _).mpr (Or.inl hb)
      obtain rfl := place_inj hm hb'.1
      exact hold hb.1

/-- The bytes `mcb_free` writes. -/
theorem mcbFreeIn_off (mem : Mem) (s : Nat) :
    AgreesOff (hdrBytes ((s + 65535) % 65536)) mem (mcbFreeIn mem s).1 := by
  unfold mcbFreeIn
  dsimp only
  generalize (s + 65535) % 65536 = q
  have hsub : ∀ a n, q * 16 ≤ a → a + n ≤ q * 16 + 5 → Set.Ico a (a + n) ⊆ hdrBytes q :=
    fun a n h₁ h₂ x hx => ⟨h₁.trans hx.1, hx.2.trans_le h₂⟩
  have howner := (writew_off mem (q * 16 + 1) 0).mono (hsub _ _ (by omega) (by omega))
  split_ifs
  · exact AgreesOff.refl _ _
  · exact howner
  · exact howner
  · exact (howner.trans ((writew_off _ _ _).mono (hsub _ _ (by omega) (by omega)))).trans
      ((writeb_off _ _ _).mono (hsub _ _ (by omega) (by omega)))

/-- A block taken and freed again: the allocated blocks are those from before. -/
theorem Taken.freed (h : Taken m m' bs bs' s b) : (∃ bs'', Chain (mcbFree m' s).1.mem bs'' ∧
      ∀ q d, Allocated bs'' q d ↔ Allocated bs q d) ∧
    AgreesOff (dataBytes s b ∪ cut bs bs') m.mem (mcbFree m' s).1.mem := by
  have hpos := h.pos
  have hbounds := h.bounds
  have hseg : AllocatedSeg m' s := ⟨h.init, bs', s - 1, b, h.chain, h.block, by omega⟩
  obtain ⟨mem, bs'', hfree, hchain, hall⟩ := mcbFree_spec hseg
  constructor
  · rw [hfree]
    refine ⟨bs'', hchain, fun q d => ?_⟩
    rw [(hall bs' h.chain).2 q d, h.allocated q d]
    constructor
    · rintro ⟨hd | ⟨rfl, -⟩, hne⟩
      · exact hd
      · exact absurd rfl hne
    · intro hd
      refine ⟨Or.inl hd, ?_⟩
      rintro rfl
      exact h.fresh d hd
  · have hmem : (mcbFree m' s).1.mem = (mcbFreeIn m'.mem s).1 := by
      rw [mcbFree, if_pos h.init]
    have hmod : (s + 65535) % 65536 = s - 1 := by
      simp only [MCB_ARENA_START, MCB_ARENA_END] at hbounds
      omega
    have hoff := mcbFreeIn_off m'.mem s
    rw [hmod] at hoff
    rw [hmem]
    refine h.off.trans (hoff.mono fun x hx => Or.inr ⟨s - 1, b, h.block.1, fun hb => ?_, hx⟩)
    exact h.fresh b ⟨hb, h.block.2⟩

end Blocks

/-! ### Where the child is loaded -/

/-- The end of the block with data segment `s`, by its header. -/
def blockEnd (mem : Mem) (s : Nat) : Nat := (s + readw mem ((s - 1) * 16 + 3)) * 16

/-- The PSP and the image of the program end in the block allocated for them. -/
def ImageInBlock (host : Host) (m : Machine) : Prop :=
  ∀ m₁ psp, childSpace m = some (m₁, psp) → psp ≠ 0 → psp * 16 + 256 ≤ blockEnd m₁.mem psp ∧
    ImageFits host (host.resolvePath (dosPath m)) psp (blockEnd m₁.mem psp)

section Loading

variable {m m' m'' : Machine} {bs bs' bs'' : List (Block Nat)} {s t : Nat} {b c : Block Nat}

theorem Taken.blockEnd_eq (h : Taken m m' bs bs' s b) : blockEnd m'.mem s = (s + b.size) * 16 := by
  rw [blockEnd, (chain_header h.chain h.block.1).size]

/-- Memory and the extender flag apart, nothing has changed. -/
def ImageOnly (m m' : Machine) : Prop :=
  m' = { m with mem := m'.mem, extenderBound := m'.extenderBound }

theorem ImageOnly.trans (h : ImageOnly m m') (h' : ImageOnly m' m'') : ImageOnly m m'' := by
  unfold ImageOnly at *
  rw [h', h]

theorem imageOnly_of_setMem (h : m' = m.setMem m'.mem) : ImageOnly m m' := by
  unfold ImageOnly
  rw [h]
  rfl

theorem childSpace_taken (hi : m.mcbInitialised = true) (hc : Chain m.mem bs)
    (h : childSpace m = some (m', s)) :
    (s = 0 ∧ m' = m) ∨ (s ≠ 0 ∧ (∃ bs' b, Taken m m' bs bs' s b) ∧ m' = m.setMem m'.mem) := by
  unfold childSpace at h
  dsimp only at h
  rw [mcbReady_of_init hi] at h
  split at h
  · cases h
  · split_ifs at h
    · cases h
      exact Or.inl ⟨rfl, rfl⟩
    · split at h
      · cases h
      · rename_i largest _ _ m₁ seg l halloc
        split_ifs at h with hseg
        · cases h
          exact Or.inl ⟨rfl, mcbAllocate_none hi hc (hseg ▸ halloc)⟩
        · cases h
          obtain ⟨⟨bs', b, ht, hsize⟩, hm₁⟩ := mcbAllocate_taken hi hc halloc hseg
          refine Or.inr ⟨hseg, ⟨bs', b, ht.write ((fill_off _ _ _ _).mono fun x hx => ?_) ht.init rfl⟩, ?_⟩
          · refine ⟨hx.1, hx.2.trans_le ?_⟩
            rw [Nat.add_mul]
            exact Nat.add_le_add_left (Nat.mul_le_mul_right 16 hsize) _
          · rw [hm₁]
            rfl

/-- The block in its segment and the image in the block: the outcomes of the load. -/
theorem loadChild_inside {host : Host} (hi : m.mcbInitialised = true) (hc : Chain m.mem bs)
    (hplain : Plain host (host.resolvePath (dosPath m))) (hfit : ImageInBlock host m) {r : ChildBlock}
    (h : loadChild host (host.resolvePath (dosPath m)) m = some r) :
    (∃ m₁ code, r = .failed m₁ code ∧ (∃ bs'', Chain m₁.mem bs'' ∧ ∀ q d, Allocated bs'' q d ↔
        Allocated bs q d) ∧ (m₁.mem = m.mem ∨
          ∃ bs' psp b, Allocated bs' (psp - 1) b ∧ (∀ c, ¬ Allocated bs (psp - 1) c) ∧
            AgreesOff (dataBytes psp b ∪ cut bs bs') m.mem m₁.mem)) ∨
    ∃ m₁ psp regs bs' b, r = .loaded m₁ psp regs ∧ Taken m m₁ bs bs' psp b ∧ 256 ≤ b.size * 16 ∧
      ImageOnly m m₁ := by
  unfold loadChild at h
  split at h
  · cases h
  · rename_i m₁ psp hspace
    rcases childSpace_taken hi hc hspace with ⟨rfl, rfl⟩ | ⟨hpsp, ⟨bs', b, ht⟩, hm₁⟩
    · rw [if_pos rfl] at h
      cases h
      exact Or.inl ⟨_, _, rfl, ⟨bs, hc, fun _ _ => Iff.rfl⟩, Or.inl rfl⟩
    · rw [if_neg hpsp] at h
      obtain ⟨hpspfit, himage⟩ := hfit m₁ psp hspace hpsp
      have hbounds := ht.bounds
      simp only [MCB_ARENA_START, MCB_ARENA_END] at hbounds
      have hloaded : ∀ {r : Machine × Option InitialRegs},
          loadProgramAt host (host.resolvePath (dosPath m)) m₁ psp = some r →
            Taken m r.1 bs bs' psp b ∧ ImageOnly m r.1 := by
        intro r hr
        obtain ⟨mem, flag, hr₁, hoff⟩ := loadProgramAt_inside (by omega) hr hplain.not_linear himage
        rw [ht.blockEnd_eq] at hoff
        have himg : ImageOnly m₁ r.1 := by
          rw [hr₁]
          rfl
        refine ⟨?_, (imageOnly_of_setMem hm₁).trans himg⟩
        rw [hr₁]
        exact ht.write hoff ht.init rfl
      split at h
      · cases h
      · rename_i hload
        cases h
        obtain ⟨hchain, hoff⟩ := (hloaded hload).1.freed
        exact Or.inl ⟨_, _, rfl, hchain, Or.inr ⟨bs', psp, b, ht.block, ht.fresh, hoff⟩⟩
      · rename_i m₂ regs hload
        cases h
        obtain ⟨ht', himg⟩ := hloaded hload
        refine Or.inr ⟨_, psp, regs, bs', b, rfl, ht', ?_, himg⟩
        rw [ht.blockEnd_eq] at hpspfit
        omega

end Loading

/-! ### AH=4B AL=1 -/

/-- The fixed bytes of the PSP that AL=1 builds. -/
def loadedPspBytes : List (Nat × Nat) :=
  [(0x00, 0xCD), (0x01, 0x20), (0x02, 0x00), (0x03, 0xA0), (0x2C, ENV_SEG % 256), (0x2D, ENV_SEG / 256),
    (0x80, 0), (0x81, 0x0D)]

def buildLoadedPsp (mem : Mem) (psp : Nat) : Mem :=
  loadedPspBytes.foldl (fun mem p => writeb mem (psp * 16 + p.1) p.2) (fill mem (psp * 16) 256 0)

/-- The caller's parameter block. -/
def paramBlock (m : Machine) : Nat := lin (m.segPhys .es + m.bx)

/-- What AL=1 answers in the parameter block. -/
def entryWords (r : InitialRegs) : List (Nat × Nat) :=
  [(0x0E, r.sp), (0x10, r.ss), (0x12, r.ip), (0x14, r.cs)]

def putEntry (mem : Mem) (pb : Nat) (r : InitialRegs) : Mem :=
  (entryWords r).foldl (fun mem p => writew mem (lin (pb + p.1)) p.2) mem

/-- AH=4B AL=1: load a program and do not run it. -/
def int21_4B01 (host : Host) (m : Machine) : Reply :=
  let hostPath := host.resolvePath (dosPath m)
  if (host.contents hostPath).isNone then some (failWith m 2)
  else
    match loadChild host hostPath m with
    | none => none
    | some (.failed m code) => some (failWith m code)
    | some (.loaded m' psp regs) =>
      some (m'.setMem (putEntry (buildLoadedPsp m'.mem psp) (paramBlock m) regs), false)

/-- The bytes of the parameter block AL=1 writes. -/
def entryBytes (pb : Nat) : Set Nat :=
  { x | ∃ o ∈ [0x0E, 0x10, 0x12, 0x14], x ∈ Set.Ico (lin (pb + o)) (lin (pb + o) + 2) }

theorem foldl_writew_off {S : Set Nat} {pb : Nat} : ∀ (ps : List (Nat × Nat)) (mem : Mem),
    (∀ p ∈ ps, Set.Ico (lin (pb + p.1)) (lin (pb + p.1) + 2) ⊆ S) →
      AgreesOff S mem (ps.foldl (fun mem p => writew mem (lin (pb + p.1)) p.2) mem)
  | [], _, _ => AgreesOff.refl _ _
  | p :: ps, mem, h =>
    ((writew_off mem (lin (pb + p.1)) p.2).mono (h p List.mem_cons_self)).trans
      (foldl_writew_off ps _ fun p hp => h p (List.mem_cons_of_mem _ hp))

theorem putEntry_off (mem : Mem) (pb : Nat) (r : InitialRegs) :
    AgreesOff (entryBytes pb) mem (putEntry mem pb r) := by
  refine foldl_writew_off _ _ fun p hp x hx => ⟨p.1, ?_, hx⟩
  have hoffs : (entryWords r).map Prod.fst = [0x0E, 0x10, 0x12, 0x14] := rfl
  rw [← hoffs]
  exact List.mem_map_of_mem hp

theorem buildLoadedPsp_off (mem : Mem) (psp : Nat) :
    AgreesOff (Set.Ico (psp * 16) (psp * 16 + 256)) mem (buildLoadedPsp mem psp) :=
  (fill_off _ _ _ _).trans (foldl_writeb_off _ _ _ _ (by decide))

/-! ### The two calls -/

theorem setMem_mem (m : Machine) (mem : Mem) : (m.setMem mem).mem = mem := rfl

theorem setMem_init (m : Machine) (mem : Mem) : (m.setMem mem).mcbInitialised = m.mcbInitialised := rfl

/-- The machine with the child's environment, before its PSP. -/
def withEnv (m : Machine) (path : List Nat) (env : Nat) : Machine :=
  m.setMem (putArgv0 (copyUp m.mem (env * 16) (parentEnvSeg m * 16) ENV_BYTES) (env * 16) path)

theorem withEnv_mem (m : Machine) (path : List Nat) (env : Nat) : (withEnv m path env).mem =
    putArgv0 (copyUp m.mem (env * 16) (parentEnvSeg m * 16) ENV_BYTES) (env * 16) path := by
  unfold withEnv
  exact setMem_mem _ _

theorem withEnv_init (m : Machine) (path : List Nat) (env : Nat) :
    (withEnv m path env).mcbInitialised = m.mcbInitialised := by
  unfold withEnv
  exact setMem_init _ _

theorem withEnv_off (m : Machine) (path : List Nat) (env : Nat) :
    AgreesOff (Set.Ico (env * 16) (env * 16 + ENV_BYTES)) m.mem (withEnv m path env).mem := by
  rw [withEnv_mem]
  exact (copyUp_off _ _ _ _).trans (putArgv0_inside _ _ _)

/-- The command tail, with its CR, ends in the child's block. -/
def TailInBlock (host : Host) (m : Machine) : Prop :=
  ∀ m₁ psp env regs, execLoaded host m = some (m₁, psp, env, regs) →
    psp * 16 + 0x82 + tailLen (withEnv m₁ (argv0 (dosPath m)) env) psp env ≤ blockEnd m₁.mem psp

/-- Memory `mem'` has the allocated blocks of `bs` and, new, `blocks`; bytes have changed in these, and in
    headers of blocks that were none before. -/
def OwnBlocks (m : Machine) (bs : List (Block Nat)) (mem' : Mem) (blocks : List (Nat × Block Nat)) : Prop :=
  ∃ bs', Chain mem' bs' ∧
    (∀ q c, Allocated bs' q c ↔ Allocated bs q c ∨ ∃ p ∈ blocks, q + 1 = p.1 ∧ c = p.2) ∧
    (∀ p ∈ blocks, ∀ c, ¬ Allocated bs (p.1 - 1) c) ∧
    AgreesOff ({ x | ∃ p ∈ blocks, x ∈ dataBytes p.1 p.2 } ∪ cut bs bs') m.mem mem'

/-- Memory `mem'` has the allocated blocks of `bs`; bytes have changed at most in a block that was free,
    and in headers cut for it. -/
def NoBlocks (m : Machine) (bs : List (Block Nat)) (mem' : Mem) : Prop :=
  (∃ bs', Chain mem' bs' ∧ ∀ q c, Allocated bs' q c ↔ Allocated bs q c) ∧
    (mem' = m.mem ∨ ∃ bs' psp b, Allocated bs' (psp - 1) b ∧ (∀ c, ¬ Allocated bs (psp - 1) c) ∧
      AgreesOff (dataBytes psp b ∪ cut bs bs') m.mem mem')

/-- AH=4B writes where it should: with AL=0 up to the child's first instruction, in the child's two
    blocks; with AL=1 in its one block and the parameter block; when it fails it has allocated nothing.
    It fails where the program does not fit. -/
structure LoadsInside (eng : Engine) (host : Host) (m : Machine) (bs : List (Block Nat)) : Prop where
  exec : ∀ m' saved, int21_4B eng host m = some (m', some saved) →
    (ImageInBlock host m ∧ TailInBlock host m) ∧
      ∃ b e, OwnBlocks m bs m'.mem [(m'.currentPspSeg, b), (m'.currentEnvSeg, e)]
  execFails : ∀ m', int21_4B eng host m = some (m', none) → ∃ q, m' = setCf q true ∧ NoBlocks m bs q.mem
  load : ∀ m', int21_4B01 host m = some (m', false) → ImageInBlock host m ∧
    ∃ mem psp b, OwnBlocks m bs mem [(psp, b)] ∧ AgreesOff (entryBytes (paramBlock m)) mem m'.mem
  loadFails : ∀ m', int21_4B01 host m = some (m', true) → NoBlocks m bs m'.mem

section Calls

variable {eng : Engine} {host : Host} {m m' m'' : Machine} {bs bs' bs'' : List (Block Nat)}
  {s t psp env : Nat} {b c : Block Nat}

theorem Taken.ownBlocks (h : Taken m m' bs bs' s b) : OwnBlocks m bs m'.mem [(s, b)] := by
  have hpos := h.pos
  refine ⟨bs', h.chain, fun q c => ?_, fun p hp => ?_,
    h.off.mono (Set.union_subset_union_left _ fun x hx => ?_)⟩
  · rw [h.allocated q c]
    simp only [List.mem_singleton, exists_eq_left]
    rw [show q = s - 1 ↔ q + 1 = s by omega]
  · obtain rfl := List.mem_singleton.mp hp
    exact h.fresh
  · exact ⟨(s, b), List.mem_singleton_self _, hx⟩

/-- Two blocks, one after the other, and then writes in the first. -/
theorem Taken.ownBoth (h : Taken m m' bs bs' s b) (h' : Taken m' m'' bs' bs'' t c) {mem : Mem}
    (hoff : AgreesOff (dataBytes s b) m''.mem mem) : OwnBlocks m bs mem [(s, b), (t, c)] := by
  have hs := h.pos
  have ht := h'.pos
  have hblock : Allocated bs'' (s - 1) b := (h'.allocated _ _).mpr (Or.inl h.block)
  refine ⟨bs'', h'.chain.frame hoff fun x hx => ?_, fun q d => ?_, fun p hp d hd => ?_, ?_⟩
  · have h₁ := hx.1
    have h₂ := hx.2
    exact not_headerBytes_of_data hblock.1 (by omega) (by omega)
  · rw [h'.allocated q d, h.allocated q d]
    simp only [List.mem_cons, List.not_mem_nil, or_false, exists_eq_or_imp, exists_eq_left]
    rw [show q = s - 1 ↔ q + 1 = s by omega, show q = t - 1 ↔ q + 1 = t by omega, or_assoc]
  · simp only [List.mem_cons, List.not_mem_nil, or_false] at hp
    rcases hp with rfl | rfl
    · exact h.fresh d hd
    · exact h'.fresh d ((h.allocated _ _).mpr (Or.inl hd))
  · have hcut := h.cut_subset h'
    have hfirst : dataBytes s b ⊆ { x | ∃ p ∈ [(s, b), (t, c)], x ∈ dataBytes p.1 p.2 } := fun x hx =>
      ⟨(s, b), List.mem_cons_self, hx⟩
    have hsecond : dataBytes t c ⊆ { x | ∃ p ∈ [(s, b), (t, c)], x ∈ dataBytes p.1 p.2 } := fun x hx =>
      ⟨(t, c), List.mem_cons_of_mem _ List.mem_cons_self, hx⟩
    have hcut₁ := Set.subset_union_left.trans hcut
    have hcut₂ := Set.subset_union_right.trans hcut
    exact ((h.off.mono (Set.union_subset_union hfirst hcut₁)).trans
      (h'.off.mono (Set.union_subset_union hsecond hcut₂))).trans
        (hoff.mono (hfirst.trans Set.subset_union_left))

/-- Where the load and the environment's allocation succeed, two blocks have been taken. -/
theorem execLoaded_taken (hi : m.mcbInitialised = true) (hc : Chain m.mem bs)
    (hplain : Plain host (host.resolvePath (dosPath m))) (hfit : ImageInBlock host m) {m₁ : Machine}
    {regs : InitialRegs} (h : execLoaded host m = some (m₁, psp, env, regs)) :
    (∃ m₀ bs₁ bs₂ b e, Taken m m₀ bs bs₁ psp b ∧ Taken m₀ m₁ bs₁ bs₂ env e ∧ 256 ≤ b.size * 16 ∧
      ENV_BYTES / 16 ≤ e.size) ∧ ImageOnly m m₁ := by
  unfold execLoaded at h
  split at h
  · rename_i m₀ psp' regs' hload
    rcases loadChild_inside hi hc hplain hfit hload with ⟨_, _, hr, -⟩ | ⟨_, _, _, bs₁, b, hr, ht, hb, himg⟩
    · cases hr
    · cases hr
      split at h
      · rename_i m₂ env' largest halloc
        split_ifs at h with henv
        cases h
        obtain ⟨⟨bs₂, e, ht', he⟩, hm₁⟩ := mcbAllocate_taken ht.init ht.chain halloc henv
        exact ⟨⟨_, bs₁, bs₂, b, e, ht, ht', hb, he⟩, himg.trans (imageOnly_of_setMem hm₁)⟩
      · cases h
  · cases h

theorem exec_inside (hi : m.mcbInitialised = true) (hc : Chain m.mem bs)
    (hplain : Plain host (host.resolvePath (dosPath m))) (hfit : ImageInBlock host m)
    (htail : TailInBlock host m) {saved : ExecSaved} (h : int21_4B eng host m = some (m', some saved)) :
    ∃ b e, OwnBlocks m bs m'.mem [(m'.currentPspSeg, b), (m'.currentEnvSeg, e)] := by
  obtain ⟨m₁, psp, env, regs, hload, -, -, -, rfl⟩ := int21_4B_withChild h
  obtain ⟨⟨m₀, bs₁, bs₂, b, e, ht, ht', hb, he⟩, -⟩ := execLoaded_taken hi hc hplain hfit hload
  have hend := htail m₁ psp env regs hload
  have hpsp : blockEnd m₁.mem psp = (psp + b.size) * 16 := by
    rw [blockEnd, (chain_header ht'.chain ((ht'.allocated _ _).mpr (Or.inl ht.block)).1).size]
  rw [hpsp] at hend
  rw [startChild_mem, (startChild_psp _ _ _ _ _).1, (startChild_psp _ _ _ _ _).2]
  refine ⟨b, e, ?_⟩
  have hcopy : AgreesOff (dataBytes env e) m₁.mem (withEnv m₁ (argv0 (dosPath m)) env).mem := by
    have hsub : Set.Ico (env * 16) (env * 16 + ENV_BYTES) ⊆ dataBytes env e := fun x hx => by
      refine ⟨hx.1, hx.2.trans_le ?_⟩
      simp only [ENV_BYTES] at he ⊢
      omega
    exact (withEnv_off m₁ (argv0 (dosPath m)) env).mono hsub
  have hinit := (withEnv_init m₁ (argv0 (dosPath m)) env).trans ht'.init
  have hbuilt : Taken m₀ (withEnv m₁ (argv0 (dosPath m)) env) bs₁ bs₂ env e := ht'.write hcopy hinit rfl
  refine ht.ownBoth hbuilt ?_
  rw [withChild_mem]
  have hpspoff := buildChildPsp_within (withEnv m₁ (argv0 (dosPath m)) env) psp env hb (by omega)
  refine hpspoff.mono fun x hx => ⟨hx.1, hx.2.trans_le ?_⟩
  omega

/-- The answer of a call that fails. -/
theorem NoBlocks.failed {q : Machine} (h : NoBlocks m bs q.mem) (code : Nat) :
    ∃ q', setCf (q.setR16 .eax code) true = setCf q' true ∧ NoBlocks m bs q'.mem := ⟨_, rfl, h⟩

theorem execFails_inside (hi : m.mcbInitialised = true) (hc : Chain m.mem bs)
    (hplain : Plain host (host.resolvePath (dosPath m))) (hfit : ImageInBlock host m)
    (h : int21_4B eng host m = some (m', none)) : ∃ q, m' = setCf q true ∧ NoBlocks m bs q.mem := by
  have hsame : NoBlocks m bs m.mem := ⟨⟨bs, hc, fun _ _ => Iff.rfl⟩, Or.inl rfl⟩
  unfold int21_4B at h
  dsimp only at h
  rw [← dosPath] at h
  split at h
  · cases h
    exact hsame.failed 2
  · split at h
    · cases h
    · rename_i m₁ code hload
      cases h
      rcases loadChild_inside hi hc hplain hfit hload with ⟨_, _, hr, hno⟩ | ⟨_, _, _, _, _, hr, -⟩
      · cases hr
        exact NoBlocks.failed hno _
      · cases hr
    · rename_i m₁ psp regs hload
      rcases loadChild_inside hi hc hplain hfit hload with ⟨_, _, hr, -⟩ | ⟨_, _, _, bs₁, b, hr, ht, -⟩
      · cases hr
      · cases hr
        split at h
        · cases h
        · rename_i m₂ env largest halloc
          split at h
          · rename_i henv
            cases h
            have hm₂ : m₂ = m₁ := mcbAllocate_none ht.init ht.chain (henv ▸ halloc)
            rw [hm₂]
            obtain ⟨hchain, hoff⟩ := ht.freed
            have hno : NoBlocks m bs (mcbFree m₁ psp).1.mem :=
              ⟨hchain, Or.inr ⟨bs₁, psp, b, ht.block, ht.fresh, hoff⟩⟩
            exact hno.failed 8
          · cases h

theorem load_inside (hi : m.mcbInitialised = true) (hc : Chain m.mem bs)
    (hplain : Plain host (host.resolvePath (dosPath m))) (hfit : ImageInBlock host m) {r : Machine × Bool}
    (h : int21_4B01 host m = some r) :
    (r.2 = true ∧ NoBlocks m bs r.1.mem) ∨ (r.2 = false ∧
      ∃ mem psp b, OwnBlocks m bs mem [(psp, b)] ∧ AgreesOff (entryBytes (paramBlock m)) mem r.1.mem) := by
  unfold int21_4B01 at h
  dsimp only at h
  split at h
  · cases h
    exact Or.inl ⟨rfl, ⟨bs, hc, fun _ _ => Iff.rfl⟩, Or.inl rfl⟩
  · split at h
    · cases h
    · rename_i m₁ code hload
      cases h
      rcases loadChild_inside hi hc hplain hfit hload with ⟨_, _, hr, hno⟩ | ⟨_, _, _, _, _, hr, -⟩
      · cases hr
        exact Or.inl ⟨rfl, hno⟩
      · cases hr
    · rename_i m₁ psp regs hload
      cases h
      rcases loadChild_inside hi hc hplain hfit hload with ⟨_, _, hr, -⟩ | ⟨_, _, _, bs₁, b, hr, ht, hb, -⟩
      · cases hr
      · cases hr
        refine Or.inr ⟨rfl, buildLoadedPsp m₁.mem psp, psp, b, ?_, putEntry_off _ _ _⟩
        have hpsp : AgreesOff (dataBytes psp b) m₁.mem (buildLoadedPsp m₁.mem psp) :=
          (buildLoadedPsp_off m₁.mem psp).mono fun x hx => ⟨hx.1, hx.2.trans_le (by omega)⟩
        have hbuilt : Taken m (m₁.setMem (buildLoadedPsp m₁.mem psp)) bs bs₁ psp b :=
          ht.write hpsp ht.init rfl
        exact hbuilt.ownBlocks

/-- A file AL=1 loads is there, and its load succeeds. -/
theorem load_accepts (h : int21_4B01 host m = some (m', false)) :
    (host.contents (host.resolvePath (dosPath m))).isNone = false ∧
      ∃ m₁ psp regs, loadChild host (host.resolvePath (dosPath m)) m = some (.loaded m₁ psp regs) := by
  unfold int21_4B01 at h
  dsimp only at h
  split at h
  · cases h
  · rename_i hfile
    refine ⟨Bool.eq_false_iff.mpr hfile, ?_⟩
    split at h
    · cases h
    · cases h
    · rename_i m₁ psp regs hload
      exact ⟨m₁, psp, regs, hload⟩

/-- With the file there and both blocks allocated, AL=0 starts the child. -/
theorem exec_starts (hfile : (host.contents (host.resolvePath (dosPath m))).isNone = false)
    {r : Machine × Nat × Nat × InitialRegs} (h : execLoaded host m = some r) :
    ∃ m' saved, int21_4B eng host m = some (m', some saved) := by
  unfold execLoaded at h
  split at h
  · rename_i m₀ psp regs hload
    split at h
    · rename_i m₁ env largest halloc
      split_ifs at h with henv
      unfold int21_4B
      dsimp only
      rw [← dosPath, if_neg (by rw [hfile]; decide), hload]
      dsimp only
      rw [halloc]
      dsimp only
      rw [if_neg henv]
      exact ⟨_, _, rfl⟩
    · cases h
  · cases h

/-- **Where a child is loaded.**  Where its PSP, its image with the words relocated and its command tail
    end in the block allocated for them, AH=4B keeps to its blocks; and if the file can be loaded at
    all, only there. -/
theorem loadsInside_iff (hi : m.mcbInitialised = true) (hc : Chain m.mem bs)
    (hplain : Plain host (host.resolvePath (dosPath m))) :
    (ImageInBlock host m ∧ TailInBlock host m → LoadsInside eng host m bs) ∧
      ((∃ m', int21_4B01 host m = some (m', false)) → LoadsInside eng host m bs →
        ImageInBlock host m ∧ TailInBlock host m) := by
  constructor
  · rintro ⟨hfit, htail⟩
    constructor
    · intro m' saved h
      exact ⟨⟨hfit, htail⟩, exec_inside hi hc hplain hfit htail h⟩
    · intro m' h
      exact execFails_inside hi hc hplain hfit h
    · intro m' h
      rcases load_inside hi hc hplain hfit h with ⟨hr, -⟩ | ⟨-, hown⟩
      · cases hr
      · exact ⟨hfit, hown⟩
    · intro m' h
      rcases load_inside hi hc hplain hfit h with ⟨-, hno⟩ | ⟨hr, -⟩
      · exact hno
      · cases hr
  · rintro ⟨m', hload⟩ h
    refine ⟨(h.load m' hload).1, fun m₁ psp env regs hexec => ?_⟩
    obtain ⟨m'', saved, hstart⟩ : ∃ m'' saved, int21_4B eng host m = some (m'', some saved) :=
      exec_starts (load_accepts hload).1 hexec
    exact (h.exec m'' saved hstart).1.2 m₁ psp env regs hexec

end Calls

/-! ### A child that fits, and one that does not -/

theorem tiny_plain (path : List Nat) : Plain Nesting.tinyHost path := by
  intro extender le hext hlin
  have hnone : linearAt Nesting.tinyHost [0xC3] extender = some none := by
    cases extender <;> rfl
  cases hnone.symm.trans hlin

/-- Where the child is, where its block ends, and where its command tail does. -/
theorem served_blocks : (childSpace served).map (fun r => (r.2, blockEnd r.1.mem r.2)) =
      some (0x3002, 0x70020) ∧
    (execLoaded Nesting.tinyHost served).map (fun r => (r.2.1, blockEnd r.1.mem r.2.1,
      tailLen (withEnv r.1 (argv0 (dosPath served)) r.2.2.1) r.2.1 r.2.2.1)) =
        some (0x3002, 0x70020, 0) := by
  constructor <;> decide +kernel

theorem loadsInside_iff_served : LoadsInside tableEngine Nesting.tinyHost served asked := by
  have hinit : served.mcbInitialised = true := by
    decide +kernel
  refine (loadsInside_iff hinit chain_asked (tiny_plain _)).1 ⟨?_, ?_⟩
  · intro m₁ psp hspace _
    have hblock := served_blocks.1
    rw [hspace, Option.map_some, Option.some.injEq, Prod.mk.injEq] at hblock
    obtain ⟨rfl, hend⟩ := hblock
    dsimp only at hend
    rw [hend]
    exact ⟨by decide, fun _ => by decide⟩
  · intro m₁ psp env regs hload
    have hblock := served_blocks.2
    rw [hload, Option.map_some, Option.some.injEq, Prod.mk.injEq, Prod.mk.injEq] at hblock
    obtain ⟨rfl, hend, hlen⟩ := hblock
    dsimp only at hend hlen
    rw [hend, hlen]
    decide

/-- A program that has left 190 paragraphs free. -/
def crowded : Machine :=
  (finish (int21_48 { bootMachine with cpu := arenaCpu 0x7F40 0 })).getD bootMachine

theorem chain_crowded : Chain crowded.mem [⟨PSP_SEG, 0x7F40⟩, ⟨0, 0xBE⟩] := by
  refine ⟨by decide, by decide, ?_⟩
  simp only [Links]
  refine ⟨⟨?_, ?_, ?_⟩, ⟨?_, ?_, ?_⟩, trivial⟩ <;> decide +kernel

/-- A host on which every path is a COM file of 240 bytes. -/
def largeHost : Host := { Nesting.tinyHost with contents := fun _ => some (List.replicate 240 0xC3) }

/-- The child gets 30 paragraphs, and AH=4B loads the file over the header behind them. -/
theorem crowded_overrun : (childSpace crowded).map (fun r => (r.2, blockEnd r.1.mem r.2)) =
      some (0x9F42, 0x9F600) ∧
    (int21_4B01 largeHost crowded).map (fun r => (r.2, readb r.1.mem 0x9F600)) = some (false, 0xC3) := by
  constructor <;> decide +kernel

/-- AH=4B does not look whether the file fits. -/
theorem load_overruns : ¬ ∀ eng host m bs, m.mcbInitialised = true → Chain m.mem bs →
    Plain host (host.resolvePath (dosPath m)) → LoadsInside eng host m bs := by
  intro h
  have hplain : Plain largeHost (largeHost.resolvePath (dosPath crowded)) := by
    intro extender le hext hlin
    have hfile : extenderDetected largeHost (List.replicate 240 0xC3) = some false := by
      decide +kernel
    have hnone : linearAt largeHost (List.replicate 240 0xC3) false = some none := by
      decide +kernel
    obtain rfl := Option.some.inj (hfile.symm.trans hext)
    cases hnone.symm.trans hlin
  have hinside := h tableEngine largeHost crowded _ (by decide +kernel) chain_crowded hplain
  obtain ⟨hblock, hload⟩ := crowded_overrun
  obtain ⟨⟨m', flag⟩, hm', hflag⟩ := Option.map_eq_some_iff.mp hload
  obtain rfl : flag = false := (Prod.mk.inj hflag).1
  obtain ⟨⟨m₁, psp⟩, hspace, hpsp⟩ := Option.map_eq_some_iff.mp hblock
  obtain ⟨hpsp, hend⟩ := Prod.mk.inj hpsp
  dsimp only at hpsp hend
  subst hpsp
  have hfit := ((hinside.load m' hm').1 m₁ _ hspace (by decide)).2
  have hcom : ComFits (List.replicate 240 0xC3) 0x9F42 0x9F600 := by
    rw [hend, ImageFits] at hfit
    rw [if_neg (by decide +kernel)] at hfit
    exact hfit
  have hover := hcom (by rw [List.length_replicate]; decide)
  rw [List.length_replicate] at hover
  exact absurd hover (by decide)

end Dosiz.ChildBlocks
