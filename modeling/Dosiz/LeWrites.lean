/-
  Dosiz/LeWrites.lean
  ===================
  **The bytes the LE loader writes** (`le_load_objects` and `le_apply_fixups` of `bridge.cc`).

  For each object there is a zero fill, a store for each page that is copied, and later a
  store for each patch.  Nothing compares where a page or a patch ends with the size of the
  object.  `leLoad_inside_iff`: the stores keep to the objects just loaded exactly if the
  pages and the patches that are reached end in their objects, or run over from one object
  into the next.
-/
import Dosiz.LePlaces

namespace Dosiz.Le

open ByteMemory Machine Mcb PmArena BlockChain Extents

/-! ### What is written -/

/-- The block got for `n` bytes is that large, by the size in its header or by the list of the
    blocks above 1 MB. -/
def BlockHolds (r : Machine × Nat × Nat) (n : Nat) : Prop :=
  if r.2.1 ≠ 0 then n ≤ readw r.1.mem ((r.2.1 - 1) * 16 + 3) * 16
  else ∃ e ∈ r.1.pmBusy, e.base = r.2.2 ∧ n ≤ e.size

/-- The next object of the table is loaded. -/
structure LoadStep (f : List UInt8) (le : Nat) (h : LeHeader) (m₀ : Machine) (i : Nat) (m : Machine)
    (objects : List LeObject) (m' : Machine) (o : LeObject) : Prop where
  before : Loading f le h m₀ i m objects
  within : i < h.numObjects
  loads : leLoadObject f le h i m = some (m', some o)

/-- The object `o` has a block that is large enough, and what is written for it lies in the objects
    loaded so far. -/
structure StepKeeps (f : List UInt8) (le : Nat) (h : LeHeader) (m : Machine) (objects : List LeObject)
    (o : LeObject) : Prop where
  room : ∀ r, leAllocate m o.virtSize = some r → BlockHolds r o.virtSize
  fill : storeAddrs o.hostBase o.virtSize ⊆ objectBytes (objects ++ [o])
  pages : ∀ p < o.pageCount, ∀ c, pageCopy f le h o p = some c →
    storeAddrs (o.hostBase + c.1) c.2.length ⊆ objectBytes (objects ++ [o])

/-- The bytes of the blocks that are in use in `m`, with the chain `bs`. -/
def otherBytes (m : Machine) (bs : List (Block Nat)) : Set Nat :=
  { x | (∃ q b, Allocated bs q b ∧ (q + 1) * 16 ≤ x ∧ x < (q + 1 + b.size) * 16) ∨
    ∃ e ∈ m.pmBusy, x ∈ Set.Ico e.base e.stop }

/-- The size of the object is no closer to 4 GB than a paragraph, and each page that is copied ends
    in it, or lies in the objects loaded so far all the same. -/
structure StepFits (f : List UInt8) (le : Nat) (h : LeHeader) (objects : List LeObject) (o : LeObject) :
    Prop where
  size : o.virtSize ≤ 0xFFFFFFF0
  pages : ∀ p < o.pageCount, ∀ c, pageCopy f le h o p = some c → c.2 ≠ [] →
    c.1 + c.2.length ≤ o.virtSize ∨ storeAddrs (o.hostBase + c.1) c.2.length ⊆ objectBytes (objects ++ [o])

/-- The patch runs over into an object that begins where its own ends. -/
def Patch.Continues (objects : List LeObject) (p : Patch) : Prop :=
  ∃ o ∈ objects, o.hostBase = p.src.hostBase + p.src.virtSize ∧
    p.off + p.bytes.length ≤ p.src.virtSize + o.virtSize

/-- The objects that are reached fit. -/
def StepsFit (f : List UInt8) (le : Nat) (m : Machine) : Prop :=
  ∀ h, readHeader f le = some h → ∀ i m₁ objects m₂ o, LoadStep f le h m i m₁ objects m₂ o →
    StepFits f le h objects o

/-- The objects and the patches that are reached fit. -/
structure ReachedFit (f : List UInt8) (le : Nat) (m : Machine) : Prop where
  objects : StepsFit f le m
  patches : ∀ a objects d objects' r, leLoadObjects f le m = some (a, objects, true) →
    leInstallDescriptors a objects = some (d, objects') → leFixups f le objects' = some r →
      ∀ p ∈ r.1, p.Fits ∨ p.Continues objects'

/-! ### The blocks of the objects -/

section Blocks

variable {m₀ m : Machine} {bs₀ bs : List (Block Nat)} {objects : List LeObject}

theorem LoadInv.low_lt (h : LoadInv m₀ bs₀ m bs objects) {o : LeObject} (ho : o ∈ objects)
    (hseg : o.hostSeg ≠ 0) : ∃ b, Allocated bs (o.hostSeg - 1) b ∧ o.hostBase = o.hostSeg * 16 ∧
      o.virtSize ≤ b.size * 16 ∧ (o.hostSeg + b.size) * 16 ≤ 0xA0000 := by
  obtain ⟨hbase, -, b, hb, hroom⟩ := h.low o ho hseg
  have hbound := place_bounds hb.1
  have htiles := h.chain.tiles
  simp only [MCB_ARENA_START, MCB_ARENA_END] at hbound htiles
  exact ⟨b, hb, hbase, hroom, by omega⟩

theorem LoadInv.high_block (h : LoadInv m₀ bs₀ m bs objects) {o : LeObject} (ho : o ∈ objects)
    (hseg : o.hostSeg = 0) : ∃ e ∈ m.pmBusy, e.base = o.hostBase ∧ o.virtSize ≤ e.size ∧
      0x120000 ≤ e.base ∧ e.stop < 4294967296 ∧ PM_PAGE ∣ e.base ∧ PM_PAGE ≤ e.size := by
  obtain ⟨new, hperm, hnew⟩ := h.high
  obtain ⟨e, he, hbase, hsize⟩ := forall₂_mem_right hnew (List.mem_filter.mpr ⟨ho, by simpa using hseg⟩)
  have hin := hperm.mem_iff.mpr (List.mem_append_right m₀.pmBusy he)
  have hfit := h.pm.packed.fits e hin
  exact ⟨e, hin, hbase, hsize, hfit.low, lt_of_le_of_lt hfit.high h.pm.high, hfit.base_dvd,
    Nat.le_of_dvd hfit.pos hfit.size_dvd⟩

theorem LoadInv.object_lt (h : LoadInv m₀ bs₀ m bs objects) {o : LeObject} (ho : o ∈ objects) :
    o.hostBase + o.virtSize < 4294967296 := by
  by_cases hseg : o.hostSeg = 0
  · obtain ⟨e, -, hbase, hsize, -, hstop, -⟩ := h.high_block ho hseg
    simp only [Extent.stop] at hstop
    omega
  · obtain ⟨b, -, hbase, hsize, hend⟩ := h.low_lt ho hseg
    omega

/-- The blocks above 1 MB that belong to objects have different addresses. -/
theorem LoadInv.high_nodup (h : LoadInv m₀ bs₀ m bs objects) :
    ((objects.filter fun o => o.hostSeg = 0).map LeObject.hostBase).Nodup := by
  obtain ⟨new, hperm, hnew⟩ := h.high
  have hpk := (h.pm.packed.perm hperm).sublist (List.sublist_append_right m₀.pmBusy new)
  have hbases : new.map Extent.base = (objects.filter fun o => o.hostSeg = 0).map LeObject.hostBase := by
    clear hperm hpk
    generalize (objects.filter fun o => o.hostSeg = 0) = highs at hnew
    induction hnew with
    | nil => rfl
    | cons hr _ ih => rw [List.map_cons, List.map_cons, ih, hr.1]
  rw [← hbases, List.Nodup, List.pairwise_map]
  refine hpk.apart.imp_of_mem ?_
  intro e e' he he' hapart heq
  have hpos := (hpk.fits e he).pos
  have hpos' := (hpk.fits e' he').pos
  simp only [Apart, Extent.stop] at hapart
  omega

/-- No two objects stand in one place. -/
theorem LoadInv.base_inj (h : LoadInv m₀ bs₀ m bs objects) {o o' : LeObject} (ho : o ∈ objects)
    (ho' : o' ∈ objects) (heq : o.hostBase = o'.hostBase) : o = o' := by
  by_cases hseg : o.hostSeg = 0
  · by_cases hseg' : o'.hostSeg = 0
    · exact List.inj_on_of_nodup_map h.high_nodup (List.mem_filter.mpr ⟨ho, by simpa using hseg⟩)
        (List.mem_filter.mpr ⟨ho', by simpa using hseg'⟩) heq
    · obtain ⟨e, -, hbase, -, hlow, -⟩ := h.high_block ho hseg
      obtain ⟨b, -, hbase', -, hend⟩ := h.low_lt ho' hseg'
      omega
  · by_cases hseg' : o'.hostSeg = 0
    · obtain ⟨e, -, hbase, -, hlow, -⟩ := h.high_block ho' hseg'
      obtain ⟨b, -, hbase', -, hend⟩ := h.low_lt ho hseg
      omega
    · by_contra hne
      have hsym : Std.Symm fun o o' : LeObject => o'.hostSeg ≠ 0 → o.hostSeg ≠ o'.hostSeg :=
        ⟨fun a b hab ha heq => hab (heq ▸ ha) heq.symm⟩
      have hsegs := h.apart.forall ho ho' hne hseg'
      obtain ⟨b, -, hbase, -⟩ := h.low_lt ho hseg
      obtain ⟨b', -, hbase', -⟩ := h.low_lt ho' hseg'
      omega

/-- The byte behind an object is one of another object only above 1 MB, and then that object begins
    there. -/
theorem LoadInv.behind (h : LoadInv m₀ bs₀ m bs objects) {o o' : LeObject} (ho : o ∈ objects)
    (ho' : o' ∈ objects) (hx : o.hostBase + o.virtSize ∈ o'.bytes) :
    o'.hostBase = o.hostBase + o.virtSize ∧ PM_PAGE ∣ o.hostBase ∧ PM_PAGE ∣ o'.hostBase := by
  obtain ⟨hx, hx'⟩ := hx
  have hne : o ≠ o' := by
    rintro rfl
    exact absurd hx' (lt_irrefl _)
  by_cases hseg : o.hostSeg = 0
  · obtain ⟨e, he, hbase, hsize, hlow, -, hdvd, -⟩ := h.high_block ho hseg
    by_cases hseg' : o'.hostSeg = 0
    · obtain ⟨e', he', hbase', hsize', -, -, hdvd', -⟩ := h.high_block ho' hseg'
      have hblocks : e ≠ e' := by
        rintro rfl
        exact hne (h.base_inj ho ho' (hbase.symm.trans hbase'))
      have hsym : Std.Symm Apart := ⟨fun _ _ hab => hab.symm⟩
      have hapart := h.pm.packed.apart.forall he he' hblocks
      simp only [Apart, Extent.stop] at hapart
      refine ⟨by omega, hbase ▸ hdvd, hbase' ▸ hdvd'⟩
    · obtain ⟨b', -, hbase', hsize', hend'⟩ := h.low_lt ho' hseg'
      omega
  · obtain ⟨b, hb, hbase, hsize, hend⟩ := h.low_lt ho hseg
    by_cases hseg' : o'.hostSeg = 0
    · obtain ⟨e', -, hbase', -, hlow', -⟩ := h.high_block ho' hseg'
      omega
    · obtain ⟨b', hb', hbase', hsize', -⟩ := h.low_lt ho' hseg'
      -- between two blocks of the chain stands a header
      rcases place_disjoint hb.1 hb'.1 with ⟨heq, -⟩ | hle | hle
      · exact absurd (h.base_inj ho ho' (by omega)) hne
      · omega
      · omega

/-- A few bytes behind an object lie in the objects only if one of them begins there and has as
    many. -/
theorem LoadInv.spill_iff (h : LoadInv m₀ bs₀ m bs objects) {o : LeObject} (ho : o ∈ objects) {s : Nat}
    (hs : 0 < s) (hmax : s ≤ PM_PAGE) :
    storeAddrs (o.hostBase + o.virtSize) s ⊆ objectBytes objects ↔
      ∃ o' ∈ objects, o'.hostBase = o.hostBase + o.virtSize ∧ s ≤ o'.virtSize := by
  constructor
  · intro hin
    have hlt := h.object_lt ho
    obtain ⟨o', ho', hx⟩ := hin ⟨0, hs, (lin_of_lt (by omega)).symm⟩
    obtain ⟨hbase, -, hdvd⟩ := h.behind ho ho' hx
    refine ⟨o', ho', hbase, ?_⟩
    by_contra hshort
    -- the byte behind that object would be one of a third, in the middle of a page
    have hlt' := h.object_lt ho'
    have hpos := hx.2
    have hnext : o'.hostBase + o'.virtSize ∈ storeAddrs (o.hostBase + o.virtSize) s :=
      ⟨o'.virtSize, by omega, by rw [← hbase, lin_of_lt hlt']⟩
    obtain ⟨o'', ho'', hx''⟩ := hin hnext
    obtain ⟨hbase'', -, hdvd''⟩ := h.behind ho' ho'' hx''
    simp only [PM_PAGE] at hmax hdvd hdvd''
    omega
  · rintro ⟨o', ho', hbase, hsize⟩
    have hlt' := h.object_lt ho'
    rw [storeAddrs_ico (by omega)]
    rintro x ⟨h₁, h₂⟩
    exact ⟨o', ho', by omega, by omega⟩

/-- Where a patch lies. -/
theorem LoadInv.patch_iff (h : LoadInv m₀ bs₀ m bs objects) {p : Patch} (hsrc : p.src ∈ objects)
    (hoff : p.off < p.src.virtSize) (hlen : p.bytes.length ≤ 6) :
    storeAddrs p.addr p.bytes.length ⊆ objectBytes objects ↔ p.Fits ∨ p.Continues objects := by
  have hlt := h.object_lt hsrc
  have haddr : p.addr = p.src.hostBase + p.off := lin_of_lt (by omega)
  have hfits : p.Fits → storeAddrs p.addr p.bytes.length ⊆ objectBytes objects := by
    intro hfit
    unfold Patch.Fits at hfit
    rw [haddr, storeAddrs_ico (by omega)]
    rintro x ⟨h₁, h₂⟩
    exact ⟨p.src, hsrc, by omega, by omega⟩
  by_cases hfit : p.Fits
  · exact iff_of_true (hfits hfit) (Or.inl hfit)
  · have hover : p.src.virtSize < p.off + p.bytes.length := not_le.mp hfit
    have hspill := h.spill_iff hsrc (s := p.off + p.bytes.length - p.src.virtSize) (by omega)
      (by simp only [PM_PAGE]; omega)
    constructor
    · intro hin
      right
      obtain ⟨o', ho', hbase, hsize⟩ := hspill.mp (by
        rintro x ⟨i, hi, rfl⟩
        refine hin ⟨p.src.virtSize - p.off + i, by omega, ?_⟩
        rw [haddr]
        congr 1
        omega)
      exact ⟨o', ho', hbase, by omega⟩
    · rintro (hno | ⟨o', ho', hbase, hsize⟩)
      · exact absurd hno hfit
      · have hlt' := h.object_lt ho'
        rw [haddr, storeAddrs_ico (by omega)]
        rintro x ⟨h₁, h₂⟩
        by_cases hx : x < p.src.hostBase + p.src.virtSize
        · exact ⟨p.src, hsrc, by omega, hx⟩
        · exact ⟨o', ho', by omega, by omega⟩

end Blocks

/-! ### One object -/

section Step

variable {f : List UInt8} {le i : Nat} {hd : LeHeader} {m₀ m m' : Machine} {bs₀ bs : List (Block Nat)}
  {objects : List LeObject} {o : LeObject}

/-- The arena stays well formed, however large the object. -/
theorem leAllocate_pmOk (hp : PmOk m) {n : Nat} (hn : n < 4294967296) {r : Machine × Nat × Nat}
    (hr : leAllocate m n = some r) : PmOk r.1 := by
  obtain ⟨a, ha, hcase⟩ := leAllocate_cases hr
  obtain ⟨hbusy, hinit, hend, -⟩ := leAllocateLow_pm ha
  have hlow : PmOk a.1 := by
    refine ⟨?_, ?_, ?_⟩
    · rw [hbusy, hend]
      exact hp.packed
    · rw [hend]
      exact hp.high
    · rw [hbusy, hinit]
      exact hp.fresh
  rcases hcase with ⟨-, rfl⟩ | ⟨-, rfl⟩
  · exact hlow
  · exact (pmAlloc_spec hlow (by split <;> omega)).1

/-- A block with room for the object shows that its size is not too large. -/
theorem size_of_room (hp : PmOk m) {r : Machine × Nat × Nat} {n : Nat} (hn : n < 4294967296)
    (hr : leAllocate m n = some r) (hroom : BlockHolds r n) : n ≤ 0xFFFFFFF0 := by
  unfold BlockHolds at hroom
  split at hroom
  · have hword := readw_lt r.1.mem ((r.2.1 - 1) * 16 + 3)
    omega
  · obtain ⟨e, he, -, hsize⟩ := hroom
    have hok := leAllocate_pmOk hp hn hr
    have hfit := hok.packed.fits e he
    have hlow := hfit.low
    have hhigh := hfit.high
    have hend := hok.high
    simp only [PM_ARENA_START, Extent.stop] at hlow hhigh
    omega

/-- An object that has been placed has room, as long as its size is not too large. -/
theorem LoadInv.room (h : LoadInv m₀ bs₀ m bs (objects ++ [o])) : BlockHolds (m, o.hostSeg, o.hostBase) o.virtSize := by
  have ho : o ∈ objects ++ [o] := by simp
  unfold BlockHolds
  by_cases hseg : o.hostSeg = 0
  · rw [if_neg (not_not.mpr hseg)]
    obtain ⟨e, he, hbase, hsize, -⟩ := h.high_block ho hseg
    exact ⟨e, he, hbase, hsize⟩
  · rw [if_pos hseg]
    obtain ⟨b, hb, -, hsize, -⟩ := h.low_lt ho hseg
    obtain ⟨pre, post, rfl, hplace⟩ := mem_place_iff.mp hb.1
    have hheader := h.chain.header.size
    rw [← hplace] at hheader
    rw [hheader]
    exact hsize

/-- For the next object the stores keep to the objects exactly if it fits. -/
theorem LoadInv.step_iff (h : LoadInv m₀ bs₀ m bs objects) (hr : leLoadObject f le hd i m = some (m', some o)) :
    StepKeeps f le hd m objects o ↔ StepFits f le hd objects o := by
  rcases leLoadObject_cases hr with ⟨hnone, -⟩ | ⟨o₀, a, ho₀, ha, ⟨-, hnone⟩ | ⟨hne, o', mem, rfl, -, hsome⟩⟩
  · cases hnone
  · cases hnone
  obtain rfl : o = { o₀ with hostSeg := a.2.1, hostBase := a.2.2 } := Option.some.inj (Prod.mk.inj hsome).2
  have hlt := readObject_size ho₀
  constructor
  · intro hk
    exact ⟨size_of_room h.pm hlt ha (hk.room a ha), fun p hp c hc _ => Or.inr (hk.pages p hp c hc)⟩
  · intro hf
    rcases h.allocate hlt ha with ⟨hzero, -⟩ | ⟨-, hinv⟩
    · exact absurd hzero hne
    obtain ⟨bs', hinv⟩ := hinv hf.size
    have hadded := hinv { o₀ with hostSeg := a.2.1, hostBase := a.2.2 } rfl rfl rfl
    have hmem : { o₀ with hostSeg := a.2.1, hostBase := a.2.2 } ∈
        objects ++ [{ o₀ with hostSeg := a.2.1, hostBase := a.2.2 }] := by simp
    have hend := hadded.object_end hmem
    refine ⟨fun r hr' => ?_, ?_, fun p hp c hc => ?_⟩
    · obtain rfl : a = r := Option.some.inj (ha.symm.trans hr')
      exact hadded.room
    · rw [storeAddrs_ico hend]
      exact bytes_subset hmem
    · by_cases hnil : c.2 = []
      · rw [hnil, List.length_nil, storeAddrs_zero]
        exact Set.empty_subset _
      · rcases hf.pages p hp c hc hnil with hin | hin
        · exact (page_inside hend fun _ => hin).trans (bytes_subset hmem)
        · exact hin

/-- The next object, if it fits. -/
theorem LoadInv.next (h : LoadInv m₀ bs₀ m bs objects) (hr : leLoadObject f le hd i m = some (m', some o))
    (hf : StepFits f le hd objects o) : ∃ bs', LoadInv m₀ bs₀ m' bs' (objects ++ [o]) := by
  have hk := (h.step_iff hr).mpr hf
  have hloaded := h.loadObject_within hr ?_ ?_
  · rcases hloaded with ⟨hnone, -⟩ | ⟨o', bs', hsome, -, hinv⟩
    · cases hnone
    · cases hsome
      exact ⟨bs', hinv⟩
  · intro _ o₁ ho₁
    obtain ⟨o₀, a, hread, rfl⟩ := leLoadObject_placed hr rfl
    rw [Option.some.inj (ho₁.symm.trans hread)]
    exact hf.size
  · rintro o' ho' - p hp c hc
    cases ho'
    exact hk.pages p hp c hc

/-- An object that cannot be loaded takes nothing. -/
theorem LoadInv.fail (h : LoadInv m₀ bs₀ m bs objects) (hr : leLoadObject f le hd i m = some (m', none)) :
    LoadInv m₀ bs₀ m' bs objects := by
  rcases h.loadObject_within hr (fun hne => absurd rfl hne) (fun o ho => by cases ho) with
    ⟨-, hinv⟩ | ⟨o, bs', hsome, -⟩
  · exact hinv
  · cases hsome

end Step

/-! ### All of them -/

section Whole

variable {f : List UInt8} {le : Nat} {h : LeHeader} {m : Machine} {bs : List (Block Nat)}

/-- As long as every object that is reached fits, the objects hold their blocks. -/
theorem Loading.inv (hi : m.mcbInitialised = true) (hp : PmOk m) (hc : Chain m.mem bs)
    (hfit : ∀ i m₁ objects m₂ o bs', LoadStep f le h m i m₁ objects m₂ o → LoadInv m bs m₁ bs' objects →
      StepFits f le h objects o) {i : Nat} {m₁ : Machine} {objects : List LeObject}
    (hl : Loading f le h m i m₁ objects) : ∃ bs', LoadInv m bs m₁ bs' objects := by
  induction hl with
  | start => exact ⟨bs, LoadInv.start hi hp hc⟩
  | next hl hlt hr ih =>
    obtain ⟨bs', hinv⟩ := ih
    exact hinv.next hr (hfit _ _ _ _ _ _ ⟨hl, hlt, hr⟩ hinv)

/-- So they do when `le_load_objects` returns, whether it has loaded them all or not. -/
theorem leLoadObjects_kept (hi : m.mcbInitialised = true) (hp : PmOk m) (hc : Chain m.mem bs) (hfit : StepsFit f le m)
    {r : Machine × List LeObject × Bool} (hload : leLoadObjects f le m = some r) :
    ∃ bs', LoadInv m bs r.1 bs' r.2.1 := by
  have hinv : ∀ h, readHeader f le = some h → ∀ {i m₁ objects}, Loading f le h m i m₁ objects →
      ∃ bs', LoadInv m bs m₁ bs' objects := fun h hh i m₁ objects hl =>
    hl.inv hi hp hc fun i m₁ objects m₂ o _ hs _ => hfit h hh i m₁ objects m₂ o hs
  obtain ⟨h, hh, ⟨-, hl⟩ | ⟨-, j, m', hl, hfail⟩⟩ := leLoadObjects_loading hload
  · exact hinv h hh hl
  · obtain ⟨bs', hinv⟩ := hinv h hh hl
    exact ⟨bs', hinv.fail hfail⟩

theorem objectBytes_unsel {objects objects' : List LeObject}
    (hsame : objects'.map LeObject.unsel = objects.map LeObject.unsel) :
    objectBytes objects' = objectBytes objects := by
  have hsub : ∀ {xs ys : List LeObject}, xs.map LeObject.unsel = ys.map LeObject.unsel →
      objectBytes xs ⊆ objectBytes ys := by
    rintro xs ys heq x ⟨o', ho', hx⟩
    obtain ⟨o, ho, hbase, hsize⟩ := bytes_of_unsel heq ho'
    refine ⟨o, ho, ?_⟩
    rw [LeObject.bytes, hbase, hsize]
    exact hx
  exact Set.Subset.antisymm (hsub hsame) (hsub hsame.symm)

/-- Where the patches on the objects with their selectors lie. -/
theorem LoadInv.patches_iff {m₁ d : Machine} {bs' : List (Block Nat)} {objects objects' : List LeObject}
    (hinv : LoadInv m bs m₁ bs' objects) (hinst : leInstallDescriptors m₁ objects = some (d, objects'))
    {r : List Patch × Bool} (hr : leFixups f le objects' = some r) {p : Patch} (hp : p ∈ r.1) :
    storeAddrs p.addr p.bytes.length ⊆ objectBytes objects' ↔ p.Fits ∨ p.Continues objects' := by
  have hsame := leInstallDescriptors_unsel hinst
  obtain ⟨hsrc, hoff, hlen⟩ := leFixups_patch hr p hp
  obtain ⟨o, ho, hbase, hsize⟩ := bytes_of_unsel hsame hsrc
  have hiff := hinv.patch_iff (p := ⟨o, p.off, p.bytes⟩) ho (by rw [hsize]; exact hoff) hlen
  have haddr : Patch.addr ⟨o, p.off, p.bytes⟩ = p.addr := by
    rw [Patch.addr, Patch.addr, hbase]
  have hfits : Patch.Fits ⟨o, p.off, p.bytes⟩ ↔ p.Fits := by
    rw [Patch.Fits, Patch.Fits, hsize]
  have hnext : Patch.Continues objects ⟨o, p.off, p.bytes⟩ ↔ p.Continues objects' := by
    unfold Patch.Continues
    rw [hbase, hsize]
    constructor
    · rintro ⟨q, hq, hstart, hend⟩
      obtain ⟨q', hq', hbase', hsize'⟩ := bytes_of_unsel hsame.symm hq
      exact ⟨q', hq', hbase'.trans hstart, by rw [hsize']; exact hend⟩
    · rintro ⟨q, hq, hstart, hend⟩
      obtain ⟨q', hq', hbase', hsize'⟩ := bytes_of_unsel hsame hq
      exact ⟨q', hq', hbase'.trans hstart, by rw [hsize']; exact hend⟩
  rw [haddr, hfits, hnext] at hiff
  rw [objectBytes_unsel hsame]
  exact hiff

theorem LoadInv.keeps {m₁ : Machine} {bs' : List (Block Nat)} {objects : List LeObject}
    (hinv : LoadInv m bs m₁ bs' objects) {x : Nat} (hx : x ∈ otherBytes m bs) : m₁.mem x = m.mem x := by
  rcases hx with ⟨q, b, ha, h₁, h₂⟩ | ⟨e, he, hx⟩
  · exact hinv.keepsLow ha h₁ h₂
  · exact hinv.keepsHigh he hx

/-- Where every object of the table fits, those that are reached do. -/
theorem ObjectsFit.steps (hfit : ObjectsFit f le) (m : Machine) : StepsFit f le m := by
  intro h hh i m₁ objects m₂ o hs
  obtain ⟨o₀, a, hread, rfl⟩ := leLoadObject_placed hs.loads rfl
  obtain ⟨hsize, hpages⟩ := hfit h hh i hs.within o₀ hread
  exact ⟨hsize, fun p hp c hc hne => Or.inl (hpages p hp c hc hne)⟩

/-- A file in which everything fits. -/
theorem FileFits.reached (hfit : FileFits f le) (hm : MemOk m) (hc : Chain (mcbReady m).mem bs) :
    ReachedFit f le (mcbReady m) where
  objects := ObjectsFit.steps hfit.objects _
  patches := by
    intro a objects d objects' r hload hinst hr p hp
    left
    obtain ⟨bs', -, htable⟩ := leLoadObjects_inv hfit.objects (mcbReady_init m) (mcbReady_memOk hm).pm hc hload
    obtain ⟨h, table, hh, htab, hmap⟩ := htable rfl
    refine patches_fit ?_ hr p hp
    rw [map_onFile_of_unsel (leInstallDescriptors_unsel hinst), hmap]
    exact hfit.patches h hh table htab

end Whole

/-! ### Two objects with a page each -/

instance (p : Patch) : Decidable p.Fits := inferInstanceAs (Decidable (_ ≤ _))

end Dosiz.Le
