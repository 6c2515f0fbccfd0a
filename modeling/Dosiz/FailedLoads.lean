/-
  Dosiz/FailedLoads.lean
  ======================
  **What a failed load leaves behind** (`load_program_at` and INT 21h AH=4B AL=0 and AL=1 of
  `bridge.cc`).

  A load takes blocks of both arenas and LDT slots, and it may set `s_extender_bound`.  When the
  objects of a linear executable cannot all be loaded, `load_exe_at` frees those that were; no
  other exit gives anything back.  `failedLoads_iff` says which failures leave everything as it
  was.
-/
import Dosiz.ChildResources
import Dosiz.ExtenderFlag
import Dosiz.FailedCalls
import Dosiz.LeDescriptors
import Dosiz.LeWrites

namespace Dosiz.FailedLoads

open ByteMemory BlockChain Machine Mcb PmArena Extents Le ChildEnv ChildBlocks ChildResources Extender

/-! ### What a load takes -/

/-- The allocated blocks of both arenas, the LDT slots in use and `s_extender_bound` are the same.
    `s_pm_busy` is in no order. -/
structure SameHoldings (m m' : Machine) : Prop where
  blocks : ∀ p : Nat × Block Nat, p ∈ mcbBlocks m' ↔ p ∈ mcbBlocks m
  above : m'.pmBusy.Perm m.pmBusy
  slots : m'.ldtInUse = m.ldtInUse
  extender : m'.extenderBound = m.extenderBound

theorem SameHoldings.refl (m : Machine) : SameHoldings m m :=
  ⟨fun _ => Iff.rfl, List.Perm.refl _, rfl, rfl⟩

theorem SameHoldings.trans {m m' m'' : Machine} (h : SameHoldings m m') (h' : SameHoldings m' m'') :
    SameHoldings m m'' :=
  ⟨fun p => (h'.blocks p).trans (h.blocks p), h'.above.trans h.above, h'.slots.trans h.slots,
    h'.extender.trans h.extender⟩

theorem SameHoldings.symm {m m' : Machine} (h : SameHoldings m m') : SameHoldings m' m :=
  ⟨fun p => (h.blocks p).symm, h.above.symm, h.slots.symm, h.extender.symm⟩

/-- With the chain set up the blocks are those it places. -/
theorem sameHoldings_iff {m m' : Machine} {bs bs' : List (Block Nat)} (hi : m.mcbInitialised = true)
    (hc : Chain m.mem bs) (hi' : m'.mcbInitialised = true) (hc' : Chain m'.mem bs') :
    SameHoldings m m' ↔ (∀ q c, Allocated bs' q c ↔ Allocated bs q c) ∧ m'.pmBusy.Perm m.pmBusy ∧
      m'.ldtInUse = m.ldtInUse ∧ m'.extenderBound = m.extenderBound := by
  constructor
  · rintro ⟨hblocks, habove, hslots, hflag⟩
    refine ⟨fun q c => ?_, habove, hslots, hflag⟩
    have hmem := hblocks (q, c)
    rwa [mcbBlocks_of_chain hi' hc', mcbBlocks_of_chain hi hc] at hmem
  · rintro ⟨hblocks, habove, hslots, hflag⟩
    refine ⟨fun p => ?_, habove, hslots, hflag⟩
    rw [mcbBlocks_of_chain hi' hc', mcbBlocks_of_chain hi hc]
    exact hblocks p.1 p.2

/-! ### Which loads take nothing -/

/-- All objects of the linear executable at `le` get their memory, and there is one at least. -/
def ObjectsLoad (f : List UInt8) (le : Nat) (m : Machine) : Prop :=
  ∃ a o objects, leLoadObjects f le (mcbReady m) = some (a, o :: objects, true)

/-- The program in `path` is not bound to an extender, or the flag is set already; and if it is a linear
    executable, its objects do not load. -/
def LoadClean (host : Host) (path : List Nat) (m : Machine) : Prop :=
  (boundFile host path = true → m.extenderBound = true) ∧
    ∀ le, LinearFile host path le → ¬ ObjectsLoad ((host.contents path).getD []) le m

/-- The objects of a linear executable that are reached fit; any other image is written where no header
    of the chain is. -/
def LoadFits (host : Host) (path : List Nat) (m : Machine) (psp : Nat) : Prop :=
  (∀ le, LinearFile host path le → StepsFit ((host.contents path).getD []) le (mcbReady m)) ∧
    ((∀ le, ¬ LinearFile host path le) → psp + 0x10 < 65536 ∧ ∃ stop, ImageFits host path psp stop ∧
      ∀ bs, Chain m.mem bs → ∀ x ∈ Set.Ico (psp * 16) stop, x ∉ headerBytes bs)

/-- The calls that load a program: `load_program_at` itself, and AH=4B with AL=0 and AL=1. -/
inductive LoadCall where
  | load (path : List Nat) (psp : Nat)
  | exec
  | loadOnly

/-- What a call comes to, and whether it has failed. -/
def LoadCall.serve (eng : Engine) (host : Host) (m : Machine) : LoadCall → Option (Machine × Bool)
  | .load path psp => (loadProgramAt host path m psp).map fun r => (r.1, r.2.isNone)
  | .exec => (int21_4B eng host m).map fun r => (r.1, r.2.isNone)
  | .loadOnly => (int21_4B01 host m).map fun r => (setCf r.1 r.2, r.2)

/-- AH=4B loads the file DS:DX names, if it is there and there is a block for the child. -/
def ChildLoads (host : Host) (m : Machine) (P : List Nat → Machine → Nat → Prop) : Prop :=
  (host.contents (host.resolvePath (dosPath m))).isNone = false → ∀ m₁ psp,
    childSpace m = some (m₁, psp) → psp ≠ 0 → P (host.resolvePath (dosPath m)) m₁ psp

/-- The FLAGS image on the caller's stack is in an allocated block, or outside the arena. -/
def FlagsOwned (m : Machine) : Prop :=
  ∀ bs, Chain (mcbReady m).mem bs → flagsAddr m ∈ outsideArena ∨
    ∃ q b, Allocated bs q b ∧ flagsAddr m ∈ dataBytes (q + 1) b

def LoadCall.Clean (host : Host) (m : Machine) : LoadCall → Prop
  | .load path _ => LoadClean host path m
  | .exec | .loadOnly => ChildLoads host m fun path m₁ _ => LoadClean host path m₁

def LoadCall.Fits (host : Host) (m : Machine) : LoadCall → Prop
  | .load path psp => LoadFits host path m psp
  | .exec | .loadOnly => FlagsOwned m ∧ ChildLoads host m (LoadFits host)

/-! ### Giving the objects back -/

section Release

variable {m m' m₀ : Machine} {bs bs₀ : List (Block Nat)} {objects : List LeObject}

/-- In a packed arena `pm_free` takes out the block at its address. -/
theorem pmFree_perm (h : PmOk m) {e : PmBlock} {rest : List PmBlock} (hperm : m.pmBusy.Perm (e :: rest)) :
    (pmFree m e.base).1.pmBusy.Perm rest := by
  have hmem : e ∈ m.pmBusy := hperm.mem_iff.mpr List.mem_cons_self
  obtain ⟨g, pre, post, -, hg, hsplit, herase⟩ := List.exists_of_eraseP
    (p := fun b : PmBlock => decide (b.base = e.base)) hmem (decide_eq_true rfl)
  have hfree : (pmFree m e.base).1.pmBusy = pre ++ post := herase
  obtain rfl : g = e := by
    have hbase : g.base = e.base := of_decide_eq_true hg
    by_contra hne
    have hgone := pmFree_gone h e.base e
    rw [hfree] at hgone
    refine hgone ?_ rfl
    rw [hsplit] at hmem
    rcases List.mem_append.mp hmem with hpre | hpost
    · exact List.mem_append_left _ hpre
    · rcases List.mem_cons.mp hpost with heq | hpost
      · exact absurd heq.symm hne
      · exact List.mem_append_right _ hpost
  rw [hfree]
  have hmiddle : m.pmBusy.Perm (g :: (pre ++ post)) := by
    rw [hsplit]
    exact List.perm_middle
  exact (hmiddle.symm.trans hperm).cons_inv

/-- The blocks of the objects are freed, and no other. -/
theorem releaseObjects_blocks : ∀ (objects : List LeObject) {m : Machine} {bs : List (Block Nat)},
    m.mcbInitialised = true → Chain m.mem bs →
    (∀ o ∈ objects, o.hostSeg ≠ 0 → ∃ b, Allocated bs (o.hostSeg - 1) b) →
    (objects.Pairwise fun o o' => o'.hostSeg ≠ 0 → o.hostSeg ≠ o'.hostSeg) →
    (releaseObjects m objects).mcbInitialised = true ∧ ∃ bs', Chain (releaseObjects m objects).mem bs' ∧
      ∀ q c, Allocated bs' q c ↔ Allocated bs q c ∧ ∀ o ∈ objects, o.hostSeg ≠ 0 → q + 1 ≠ o.hostSeg
  | [], m, bs, hi, hc, _, _ => ⟨hi, bs, hc, fun q c => by simp⟩
  | o :: objects, m, bs, hi, hc, hall, hap => by
    obtain ⟨hfirst, hrest⟩ := List.pairwise_cons.mp hap
    have hstep : releaseObjects m (o :: objects) = releaseObjects (releaseObjects m [o]) objects := rfl
    by_cases hseg : o.hostSeg = 0
    · have hone : (releaseObjects m [o]).mem = m.mem ∧
          (releaseObjects m [o]).mcbInitialised = m.mcbInitialised := by
        simp only [releaseObjects, List.foldl_cons, List.foldl_nil, hseg, ne_eq, not_true_eq_false, if_false]
        split_ifs <;> exact ⟨rfl, rfl⟩
      rw [hstep]
      obtain ⟨hi', bs', hc', hiff⟩ := releaseObjects_blocks objects (hone.2.trans hi) (hone.1 ▸ hc)
        (fun o' ho' => hall o' (List.mem_cons_of_mem _ ho')) hrest
      refine ⟨hi', bs', hc', fun q c => (hiff q c).trans (and_congr_right fun _ => ?_)⟩
      rw [List.forall_mem_cons]
      exact (and_iff_right fun hne => absurd hseg hne).symm
    · obtain ⟨b, hb⟩ := hall o List.mem_cons_self hseg
      have hone : releaseObjects m [o] = (mcbFree m o.hostSeg).1 := by
        simp only [releaseObjects, List.foldl_cons, List.foldl_nil, ne_eq, hseg, not_false_eq_true, if_true]
      have hs : AllocatedSeg m o.hostSeg := ⟨hi, bs, o.hostSeg - 1, b, hc, hb, by omega⟩
      obtain ⟨hi₁, bs₁, hc₁, -, hiff₁⟩ := mcbFree_chain hs hc
      rw [← hone] at hi₁ hc₁
      rw [hstep]
      obtain ⟨hi', bs', hc', hiff⟩ := releaseObjects_blocks objects hi₁ hc₁ (fun o' ho' hseg' => by
        obtain ⟨b', hb'⟩ := hall o' (List.mem_cons_of_mem _ ho') hseg'
        have hne := hfirst o' ho' hseg'
        exact ⟨b', (hiff₁ _ _).mpr ⟨hb', by omega⟩⟩) hrest
      refine ⟨hi', bs', hc', fun q c => ?_⟩
      rw [hiff q c, hiff₁ q c, List.forall_mem_cons, and_assoc]
      exact and_congr_right fun _ => and_congr_left' ⟨fun h _ => h, fun h => h hseg⟩

theorem mcbFree_setMem (m : Machine) (s : Nat) : (mcbFree m s).1 = m.setMem (mcbFree m s).1.mem := by
  unfold mcbFree
  split <;> rfl

/-- The objects' blocks above 1 MB are given back; the slots and the flag are not touched. -/
theorem releaseObjects_rest : ∀ (objects : List LeObject) {m : Machine} {old new : List PmBlock},
    PmOk m → m.pmBusy.Perm (old ++ new) →
    List.Forall₂ (fun e o => e.base = o.hostBase ∧ o.virtSize ≤ e.size) new
      (objects.filter fun o => o.hostSeg = 0) →
    (releaseObjects m objects).pmBusy.Perm old ∧ (releaseObjects m objects).ldtInUse = m.ldtInUse ∧
      (releaseObjects m objects).extenderBound = m.extenderBound
  | [], m, old, new, _, hperm, hnew => by
    cases hnew
    rw [List.append_nil] at hperm
    exact ⟨hperm, rfl, rfl⟩
  | o :: objects, m, old, new, hp, hperm, hnew => by
    have hstep : releaseObjects m (o :: objects) = releaseObjects (releaseObjects m [o]) objects := rfl
    rw [hstep]
    by_cases hseg : o.hostSeg = 0
    · rw [List.filter_cons_of_pos (by simpa using hseg)] at hnew
      cases hnew with
      | @cons e _ rest _ he hrest =>
        have hmem : e ∈ m.pmBusy := hperm.mem_iff.mpr (List.mem_append_right _ List.mem_cons_self)
        have hlow := (hp.packed.fits e hmem).low
        have hbase : o.hostBase ≠ 0 := by
          rw [← he.1]
          simp only [PM_ARENA_START] at hlow
          omega
        have hone : releaseObjects m [o] = (pmFree m e.base).1 := by
          simp only [releaseObjects, List.foldl_cons, List.foldl_nil, hseg, ne_eq, not_true_eq_false, if_false,
            hbase, not_false_eq_true, if_true, he.1]
        have hfreed := pmFree_perm hp (hperm.trans List.perm_middle)
        rw [hone]
        exact releaseObjects_rest objects (pmFree_ok hp _) hfreed hrest
    · rw [List.filter_cons_of_neg (by simpa using hseg)] at hnew
      have hone : releaseObjects m [o] = m.setMem (mcbFree m o.hostSeg).1.mem := by
        simp only [releaseObjects, List.foldl_cons, List.foldl_nil, ne_eq, hseg, not_false_eq_true, if_true]
        exact mcbFree_setMem m o.hostSeg
      rw [hone]
      exact releaseObjects_rest objects (m := m.setMem _) ⟨hp.packed, hp.high, hp.fresh⟩ hperm hnew

/-- `load_exe_at` gives the objects back: everything is as it was before the first of them. -/
theorem loadInv_released (h : LoadInv m₀ bs₀ m bs objects) (hc₀ : Chain m₀.mem bs₀) :
    SameHoldings m₀ (releaseObjects m objects) ∧ (releaseObjects m objects).mcbInitialised = true ∧
      ∃ bs', Chain (releaseObjects m objects).mem bs' ∧ ∀ q c, Allocated bs' q c ↔ Allocated bs₀ q c := by
  obtain ⟨hi, bs', hc, hiff⟩ := releaseObjects_blocks objects h.initialised h.chain (fun o ho hseg =>
    (h.low o ho hseg).room.imp fun _ hb => hb.1) h.apart
  obtain ⟨new, hperm, hnew⟩ := h.high
  obtain ⟨habove, hslots, hflag⟩ := releaseObjects_rest objects h.pm hperm hnew
  have hback : ∀ q c, Allocated bs' q c ↔ Allocated bs₀ q c := by
    intro q c
    rw [hiff q c]
    constructor
    · rintro ⟨ha, hnot⟩
      rcases h.only q c ha with hold | ⟨o, ho, hseg⟩
      · exact hold
      · exact absurd hseg.symm (hnot o ho (by omega))
    · intro ha
      refine ⟨h.mono q c ha, fun o ho hseg heq => (h.low o ho hseg).fresh c ?_⟩
      rwa [← heq, Nat.add_sub_cancel]
  refine ⟨(sameHoldings_iff h.init hc₀ hi hc).mpr ⟨hback, habove, ?_, ?_⟩, hi, bs', hc, hback⟩
  · rw [hslots, h.frame]
  · rw [hflag, h.frame]

/-- An object that is loaded has a block that was free before. -/
theorem loadInv_taken (h : LoadInv m₀ bs₀ m bs objects) (hc₀ : Chain m₀.mem bs₀) {o : LeObject}
    (ho : o ∈ objects) : ¬ SameHoldings m₀ m := by
  intro hsame
  by_cases hseg : o.hostSeg = 0
  · obtain ⟨new, hperm, hnew⟩ := h.high
    obtain ⟨e, he, -, -⟩ := forall₂_mem_right hnew (List.mem_filter.mpr ⟨ho, by simpa using hseg⟩)
    have hlen := (hsame.above.symm.trans hperm).length_eq
    have hpos := List.length_pos_of_mem he
    rw [List.length_append] at hlen
    omega
  · obtain ⟨-, hfresh, b, hb, -⟩ := h.low o ho hseg
    have hblocks := ((sameHoldings_iff h.init hc₀ h.initialised h.chain).mp hsame).1
    exact hfresh b ((hblocks _ _).mp hb)

end Release

/-! ### The exits of the LE branch -/

section LinearExecutable

variable {f : List UInt8} {le : Nat} {m : Machine}

/-- `le_install_descriptors` takes a slot; there is an object then. -/
theorem leInstallDescriptors_slot {d : Machine} {objects objects' : List LeObject}
    (h : leInstallDescriptors m objects = some (d, objects')) :
    objects ≠ [] ∧ ∃ i, m.ldtInUse i = false ∧ d.ldtInUse i = true := by
  have hpos : 0 < objects.length % 65536 := by
    by_contra hzero
    have hnone : objects.length % 65536 = 0 := by omega
    unfold leInstallDescriptors at h
    dsimp only at h
    rw [hnone, ldtFindRun_zero, if_pos rfl] at h
    cases h
  obtain ⟨start, -, hfree, hinst, -⟩ := leInstallDescriptors_spec h
  refine ⟨fun hnil => ?_, start, hfree start le_rfl (by omega), ?_⟩
  · rw [hnil] at hpos
    exact absurd hpos (lt_irrefl 0)
  have hne : objects.take (objects.length % 65536) ≠ [] := by
    rw [← List.length_pos_iff, List.length_take_of_le (Nat.mod_le _ _)]
    exact hpos
  obtain ⟨o, rest, heq⟩ := List.exists_cons_of_ne_nil hne
  rw [heq] at hinst
  exact (hinst.object 0 o rfl).1

/-- A slot in use stays in use up to the start of the program. -/
theorem leEntry_slots {objects : List LeObject} {r : Machine × Option LeEntry}
    (h : leEntry f le m objects = some r) : r.1.ldtInUse = m.ldtInUse := by
  rcases leEntry_cases h with rfl | ⟨e, -, heq | ⟨n, heq⟩, -, -⟩
  · rfl
  · rw [heq]
  · rw [heq, pmAlloc_globals]

theorem leLaunch_slots (objects : List LeObject) (e : LeEntry) {i : Nat} (hi : m.ldtInUse i = true) :
    (leLaunch m objects e).1.ldtInUse i = true := by
  have hprep : ∀ (q : Machine) bits32, (leLaunchPmPrep q bits32).ldtInUse = q.ldtInUse := by
    intro q bits32
    have hsetup : ∀ cs ds ss es, (pmSetupGdtAndIdt q bits32 cs ds ss es).ldtInUse = q.ldtInUse :=
      fun _ _ _ _ => rfl
    have h := hsetup (q.segVal .cs) (q.segVal .ds) (q.segVal .ss) (q.segVal .es)
    unfold leLaunchPmPrep
    generalize pmSetupGdtAndIdt q bits32 (q.segVal .cs) (q.segVal .ds) (q.segVal .ss) (q.segVal .es) = q' at h
    dsimp only
    generalize (if bits32 = true then q'.stubs.leExcCb32 else q'.stubs.leExcCb16) = cb
    split <;> exact h
  unfold leLaunch
  dsimp only
  rw [hprep]
  unfold flatSelectors
  dsimp only
  split
  · exact hi
  · simp only [ldtSet, Function.update_apply]
    split_ifs <;> first | rfl | exact hi

/-- Once the descriptors are installed, a slot is taken for good. -/
theorem loadLe_cases_slots {r : Machine × Option InitialRegs} (h : loadLe f le m = some r) :
    ∃ a objects ok, leLoadObjects f le (mcbReady m) = some (a, objects, ok) ∧
      ((ok = false ∧ r.1 = releaseObjects a objects) ∨ (ok = true ∧ r.1 = a) ∨
        (ok = true ∧ objects ≠ [] ∧ ∃ i, a.ldtInUse i = false ∧ r.1.ldtInUse i = true)) := by
  obtain ⟨q, hq, hr⟩ := loadLe_cases h
  obtain ⟨a, objects, ok, hload, hcases⟩ := lePrepare_cases hq
  refine ⟨a, objects, ok, hload, ?_⟩
  have hfirst : q.2 = none → r.1 = q.1 := by
    intro hnone
    rcases hr with ⟨-, rfl⟩ | ⟨_, _, hsome, -⟩
    · rfl
    · rw [hnone] at hsome
      cases hsome
  rcases hcases with ⟨hok, rfl⟩ | ⟨hok, ⟨-, rfl⟩ | ⟨d, objects', p, e, hinst, -, hentry, rfl⟩⟩
  · exact Or.inl ⟨hok, hfirst rfl⟩
  · exact Or.inr (Or.inl ⟨hok, hfirst rfl⟩)
  · obtain ⟨hne, i, hfree, htaken⟩ := leInstallDescriptors_slot hinst
    have hslots : e.1.ldtInUse i = true := by
      rw [leEntry_slots hentry]
      exact htaken
    refine Or.inr (Or.inr ⟨hok, hne, i, hfree, ?_⟩)
    rcases hr with ⟨-, rfl⟩ | ⟨objs, ent, -, rfl⟩
    · exact hslots
    · exact leLaunch_slots objs ent hslots

theorem leAllocate_slots {n : Nat} {a : Machine × Nat × Nat} (h : leAllocate m n = some a) :
    a.1.ldtInUse = m.ldtInUse := by
  obtain ⟨low, hlow, hcases⟩ := leAllocate_cases h
  have hkeep : low.1.ldtInUse = m.ldtInUse := by
    unfold leAllocateLow at hlow
    dsimp only at hlow
    generalize (if lin (n + 15) / 16 = 0 then 1 else lin (n + 15) / 16) = need at hlow
    split at hlow
    · obtain ⟨⟨q, seg, largest⟩, hq, rfl⟩ := Option.map_eq_some_iff.mp hlow
      exact (mcbAllocate_tables hq).1
    · cases hlow
      rfl
  rcases hcases with ⟨-, rfl⟩ | ⟨-, rfl⟩
  · exact hkeep
  · rw [pmAlloc_globals]
    exact hkeep

/-- Loading the objects takes no slot. -/
theorem leLoadObjects_slots {r : Machine × List LeObject × Bool} (h : leLoadObjects f le m = some r) :
    r.1.ldtInUse = m.ldtInUse := by
  have hobject : ∀ {h : LeHeader} {i : Nat} {q : Machine} {r : Machine × Option LeObject},
      leLoadObject f le h i q = some r → r.1.ldtInUse = q.ldtInUse := by
    intro h i q r hr
    rcases leLoadObject_cases hr with ⟨rfl, -⟩ | ⟨o, a, -, ha, ⟨-, rfl⟩ | ⟨-, o', mem, -, -, rfl⟩⟩
    · rfl
    · exact leAllocate_slots ha
    · exact leAllocate_slots ha
  rcases leLoadObjects_induct (P := fun m' _ => m'.ldtInUse = m.ldtInUse) h rfl
    (fun _ _ _ _ _ _ _ hP hstep => (hobject hstep).trans hP) with ⟨-, h⟩ | ⟨-, _, _, _, -, h, hfail⟩
  · exact h
  · exact (hobject hfail).trans h

/-- A load that succeeds takes a slot. -/
theorem loadLe_takesSlot {m' : Machine} {regs : InitialRegs} (h : loadLe f le m = some (m', some regs)) :
    ∃ i, m.ldtInUse i = false ∧ m'.ldtInUse i = true := by
  obtain ⟨q, hq, ⟨-, hr⟩ | ⟨objs, ent, hent, hr⟩⟩ := loadLe_cases h
  · cases hr
  · obtain ⟨a, objects, ok, hload, hcases⟩ := lePrepare_cases hq
    rcases hcases with ⟨-, rfl⟩ | ⟨-, ⟨-, rfl⟩ | ⟨d, objects', p, e, hinst, -, hentry, rfl⟩⟩
    · cases hent
    · cases hent
    · obtain ⟨-, i, hfree, htaken⟩ := leInstallDescriptors_slot hinst
      rw [leLoadObjects_slots hload, (mcbReady_ldtInUse m).1] at hfree
      have hslot : e.1.ldtInUse i = true := by
        rw [leEntry_slots hentry]
        exact htaken
      obtain ⟨rfl, -⟩ := Prod.mk.inj hr
      exact ⟨i, hfree, leLaunch_slots objs ent hslot⟩

/-- From `m` to `m'` the chain has lost no allocated block of `bs`. -/
def KeepsBlocks (bs : List (Block Nat)) (m' : Machine) : Prop :=
  m'.mcbInitialised = true ∧ ∃ bs', Chain m'.mem bs' ∧ ∀ q c, Allocated bs q c → Allocated bs' q c

/-- A slot that was free is in use. -/
def TakesSlot (m m' : Machine) : Prop := ∃ i, m.ldtInUse i = false ∧ m'.ldtInUse i = true

theorem TakesSlot.not_same {m' : Machine} (h : TakesSlot m m') : ¬ SameHoldings m m' := by
  intro hsame
  obtain ⟨i, hfree, htaken⟩ := h
  rw [hsame.slots, hfree] at htaken
  cases htaken

/-- The LE branch takes nothing exactly if the objects do not load. -/
theorem loadLe_holdings (hi : m.mcbInitialised = true) (hp : PmOk m) {bs : List (Block Nat)}
    (hc : Chain m.mem bs) (hfit : StepsFit f le m) {r : Machine × Option InitialRegs} (h : loadLe f le m = some r) :
    (TakesSlot m r.1 ∨ KeepsBlocks bs r.1) ∧ (SameHoldings m r.1 ↔ ¬ ObjectsLoad f le m) := by
  obtain ⟨a, objects, ok, hload, hcases⟩ := loadLe_cases_slots h
  have hready := mcbReady_of_init hi
  rw [hready] at hload
  obtain ⟨bs', (hinv : LoadInv m bs a bs' objects)⟩ := leLoadObjects_kept hi hp hc hfit hload
  have hslots : a.ldtInUse = m.ldtInUse := by
    rw [hinv.frame]
  have hloads : ObjectsLoad f le m ↔ ok = true ∧ objects ≠ [] := by
    unfold ObjectsLoad
    rw [hready, hload]
    constructor
    · rintro ⟨_, _, _, heq⟩
      cases heq
      exact ⟨rfl, List.cons_ne_nil _ _⟩
    · rintro ⟨rfl, hne⟩
      obtain ⟨o, rest, rfl⟩ := List.exists_cons_of_ne_nil hne
      exact ⟨a, o, rest, rfl⟩
  rw [hloads]
  rcases hcases with ⟨rfl, hr⟩ | ⟨rfl, hr⟩ | ⟨rfl, hne, i, hfree, htaken⟩
  · obtain ⟨hsame, hinit, bs'', hc'', hback⟩ := loadInv_released hinv hc
    rw [hr]
    refine ⟨Or.inr ⟨hinit, bs'', hc'', fun q c => (hback q c).mpr⟩, iff_of_true hsame ?_⟩
    rintro ⟨hok, -⟩
    cases hok
  · rw [hr]
    refine ⟨Or.inr ⟨hinv.initialised, bs', hinv.chain, hinv.mono⟩, ?_⟩
    by_cases hnil : objects = []
    · -- without objects `le_install_descriptors` fails, and nothing has been taken
      rw [hnil] at hinv
      refine iff_of_true (loadInv_released hinv hc).1 fun h => h.2 hnil
    · obtain ⟨o, ho⟩ := List.exists_mem_of_ne_nil _ hnil
      exact iff_of_false (loadInv_taken hinv hc ho) (not_not.mpr ⟨rfl, hnil⟩)
  · have htakes : TakesSlot m r.1 := ⟨i, by rw [← hslots]; exact hfree, htaken⟩
    exact ⟨Or.inl htakes, iff_of_false htakes.not_same (not_not.mpr ⟨rfl, hne⟩)⟩

end LinearExecutable

/-! ### The loader -/

section Loader

variable {host : Host} {path : List Nat} {m : Machine} {psp le : Nat} {r : Machine × Option InitialRegs}

theorem loadProgramAt_linear (hlin : LinearFile host path le) (h : loadProgramAt host path m psp = some r) :
    loadLe ((host.contents path).getD []) le m = some r := by
  obtain ⟨hexe, hgood, hext, hat⟩ := hlin
  unfold loadProgramAt at h
  dsimp only at h
  rw [if_pos hexe] at h
  unfold loadExeAt at h
  rw [if_neg hgood] at h
  simpa [hext, hat] using h

/-- A linear executable is not bound to an extender. -/
theorem linearFile_notBound (hlin : LinearFile host path le) : boundFile host path = false := by
  obtain ⟨-, -, hext, -⟩ := hlin
  unfold boundFile
  dsimp only
  rw [hext]
  simp

theorem not_mem_mcbBlocks (hi : m.mcbInitialised = false) (p : Nat × Block Nat) : p ∉ mcbBlocks m := by
  rintro ⟨h, -⟩
  rw [hi] at h
  cases h

/-- Setting the chain up allocates nothing. -/
theorem sameHoldings_mcbReady (m : Machine) : SameHoldings m (mcbReady m) := by
  rcases mcbReady_cases m with ⟨-, hr⟩ | ⟨hi, hr⟩
  · rw [hr]
    exact SameHoldings.refl m
  · rw [hr]
    refine ⟨fun p => ?_, List.Perm.refl _, rfl, rfl⟩
    have hfresh := mcbBlocks_of_chain (m := { m with mem := mcbInit m.mem, mcbInitialised := true }) rfl
      (mcbInit_chain m.mem) p
    rw [hfresh]
    refine iff_of_false ?_ (not_mem_mcbBlocks hi p)
    rintro ⟨hm, htag⟩
    rw [place, place, List.mem_singleton] at hm
    rw [(Prod.mk.inj hm).2] at htag
    exact htag rfl

theorem loadLe_ready (f : List UInt8) (le : Nat) (m : Machine) : loadLe f le (mcbReady m) = loadLe f le m := by
  unfold loadLe lePrepare
  rw [mcbReady_ready]

/-- The load of a linear executable. -/
theorem linear_holdings (hm : MemOk m) {bs : List (Block Nat)} (hc : Chain (mcbReady m).mem bs)
    (hlin : LinearFile host path le) (hfit : StepsFit ((host.contents path).getD []) le (mcbReady m))
    (h : loadProgramAt host path m psp = some r) :
    (TakesSlot m r.1 ∨ KeepsBlocks bs r.1) ∧ (SameHoldings m r.1 ↔ LoadClean host path m) := by
  have hready := sameHoldings_mcbReady m
  have hload := loadProgramAt_linear hlin h
  rw [← loadLe_ready] at hload
  obtain ⟨hkeeps, hiff⟩ := loadLe_holdings (mcbReady_init m) (mcbReady_memOk hm).pm hc hfit hload
  have hobjects : ObjectsLoad ((host.contents path).getD []) le (mcbReady m) ↔
      ObjectsLoad ((host.contents path).getD []) le m := by
    unfold ObjectsLoad
    rw [mcbReady_ready]
  refine ⟨hkeeps.imp_left ?_, ?_⟩
  · rintro ⟨i, hfree, htaken⟩
    rw [hready.slots] at hfree
    exact ⟨i, hfree, htaken⟩
  · constructor
    · intro hsame
      refine ⟨fun hb => ?_, fun le' hlin' => ?_⟩
      · rw [linearFile_notBound hlin] at hb
        cases hb
      · cases hlin'.2.2.2.symm.trans hlin.2.2.2
        rw [← hobjects]
        exact hiff.mp (hready.symm.trans hsame)
    · intro hclean
      refine hready.trans (hiff.mpr ?_)
      rw [hobjects]
      exact hclean.2 le hlin

/-- The load of any other file: it sets the flag at most. -/
theorem plain_holdings (hplain : ∀ le, ¬ LinearFile host path le) (hfit : LoadFits host path m psp)
    (h : loadProgramAt host path m psp = some r) :
    (∀ bs, m.mcbInitialised = true → Chain m.mem bs → KeepsBlocks bs r.1) ∧
      (MemOk m → (SameHoldings m r.1 ↔ LoadClean host path m)) := by
  obtain ⟨hpsp, stop, himage, hclear⟩ := hfit.2 hplain
  obtain ⟨mem, flag, hr, hoff⟩ := loadProgramAt_inside hpsp h hplain himage
  have hflag := loadProgramAt_extender h
  have hchain : ∀ bs, Chain m.mem bs → Chain mem bs := fun bs hc =>
    hc.frame hoff fun x hx => hclear bs hc x hx
  rw [hr] at hflag ⊢
  refine ⟨fun bs hi hc => ⟨hi, bs, hchain bs hc, fun q c hq => hq⟩, fun hm => ?_⟩
  have hblocks : ∀ p : Nat × Block Nat, p ∈ mcbBlocks { m with mem := mem, extenderBound := flag } ↔
      p ∈ mcbBlocks m := by
    intro p
    by_cases hi : m.mcbInitialised = true
    · obtain ⟨bs, hc⟩ := hm.chain hi
      rw [mcbBlocks_of_chain hi hc p]
      exact mcbBlocks_of_chain (m := { m with mem := mem, extenderBound := flag }) hi (hchain bs hc) p
    · rw [Bool.not_eq_true] at hi
      exact iff_of_false (not_mem_mcbBlocks (m := { m with mem := mem, extenderBound := flag }) hi p)
        (not_mem_mcbBlocks hi p)
  constructor
  · intro hsame
    refine ⟨fun hb => ?_, fun le hlin => absurd hlin (hplain le)⟩
    rw [← hsame.extender]
    dsimp only at hflag ⊢
    rw [hflag, hb, Bool.or_true]
  · intro hclean
    refine ⟨hblocks, List.Perm.refl _, rfl, ?_⟩
    dsimp only at hflag ⊢
    rw [hflag]
    cases hb : boundFile host path with
    | false => exact Bool.or_false _
    | true => rw [hclean.1 hb, Bool.or_true]

/-- A load takes nothing exactly if it is clean, whether it succeeds or not. -/
theorem load_holdings (hm : MemOk m) (hfit : LoadFits host path m psp)
    (h : loadProgramAt host path m psp = some r) :
    (TakesSlot m r.1 ∨ ∀ bs, m.mcbInitialised = true → Chain m.mem bs → KeepsBlocks bs r.1) ∧
      (SameHoldings m r.1 ↔ LoadClean host path m) := by
  by_cases hlinear : ∃ le, LinearFile host path le
  · obtain ⟨le, hlin⟩ := hlinear
    obtain ⟨bs, hc⟩ := (mcbReady_memOk hm).chain (mcbReady_init m)
    obtain ⟨hkeeps, hiff⟩ := linear_holdings hm hc hlin (hfit.1 le hlin) h
    refine ⟨hkeeps.imp_right fun hk bs' hi hc' => ?_, hiff⟩
    rw [mcbReady_of_init hi] at hc
    obtain rfl := hc.unique hc'
    exact hk
  · have hplain : ∀ le, ¬ LinearFile host path le := fun le hlin => hlinear ⟨le, hlin⟩
    obtain ⟨hkeeps, hiff⟩ := plain_holdings hplain hfit h
    exact ⟨Or.inr hkeeps, hiff hm⟩

end Loader

/-! ### The child's block -/

section Child

variable {host : Host} {path : List Nat} {m m' m₁ m₂ : Machine} {bs bs₁ : List (Block Nat)} {psp : Nat}
  {b : Block Nat}

theorem childSpace_ready (m : Machine) : childSpace (mcbReady m) = childSpace m := by
  unfold childSpace
  rw [mcbReady_ready]

/-- With the child's block freed again, everything is the same exactly if the load has taken nothing. -/
theorem freed_holdings (hi : m.mcbInitialised = true) (hc : Chain m.mem bs) (ht : Taken m m₁ bs bs₁ psp b)
    (hm₁ : m₁ = m.setMem m₁.mem) (hk : KeepsBlocks bs₁ m₂) :
    KeepsBlocks bs (mcbFree m₂ psp).1 ∧ (SameHoldings m (mcbFree m₂ psp).1 ↔ SameHoldings m₁ m₂) := by
  obtain ⟨hi₂, bs₂, hc₂, hmono⟩ := hk
  have hpos := ht.pos
  have hblock := hmono _ _ ht.block
  have hs : AllocatedSeg m₂ psp := ⟨hi₂, bs₂, psp - 1, b, hc₂, hblock, by omega⟩
  obtain ⟨hi₃, bs₃, hc₃, -, hfree⟩ := mcbFree_chain hs hc₂
  have hblocks : (∀ q c, Allocated bs₃ q c ↔ Allocated bs q c) ↔
      ∀ q c, Allocated bs₂ q c ↔ Allocated bs₁ q c := by
    refine forall_congr' fun q => forall_congr' fun c => ?_
    rw [hfree q c, ht.allocated q c]
    by_cases hq : q = psp - 1
    · -- the child's block is in the chain before the load and after it, and was free before
      subst hq
      refine iff_of_true ⟨fun h => absurd (by omega) h.2, fun h => absurd h (ht.fresh c)⟩
        ⟨fun h => Or.inr ⟨rfl, place_inj h.1 hblock.1⟩, fun h => ?_⟩
      rcases h with h | ⟨-, rfl⟩
      · exact absurd h (ht.fresh c)
      · exact hblock
    · rw [and_iff_left (by omega), or_iff_left fun h => hq h.1]
  have hkeeps : ∀ q c, Allocated bs q c → Allocated bs₃ q c := by
    intro q c ha
    refine (hfree q c).mpr ⟨hmono q c ((ht.allocated q c).mpr (Or.inl ha)), ?_⟩
    rintro rfl
    exact ht.fresh c ha
  have hglobals : (mcbFree m₂ psp).1.pmBusy = m₂.pmBusy ∧ (mcbFree m₂ psp).1.ldtInUse = m₂.ldtInUse ∧
      (mcbFree m₂ psp).1.extenderBound = m₂.extenderBound := by
    rw [mcbFree_setMem]
    exact ⟨rfl, rfl, rfl⟩
  have hsame : m₁.pmBusy = m.pmBusy ∧ m₁.ldtInUse = m.ldtInUse ∧ m₁.extenderBound = m.extenderBound := by
    rw [hm₁]
    exact ⟨rfl, rfl, rfl⟩
  refine ⟨⟨hi₃, bs₃, hc₃, hkeeps⟩, ?_⟩
  rw [sameHoldings_iff hi hc hi₃ hc₃, sameHoldings_iff ht.init ht.chain hi₂ hc₂, hblocks, hglobals.1,
    hglobals.2.1, hglobals.2.2, hsame.1, hsame.2.1, hsame.2.2]

/-- The child's block, the load, and the block freed after it; with AL=0 the environment's allocation
    that fails comes between. -/
theorem child_freed (hm : MemOk m) (hc : Chain (mcbReady m).mem bs) (hspace : childSpace m = some (m₁, psp))
    (hpsp : psp ≠ 0) (hfit : LoadFits host path m₁ psp) {r : Machine × Option InitialRegs}
    (h : loadProgramAt host path m₁ psp = some r) (hslots : m₂.ldtInUse = r.1.ldtInUse)
    (hsame : ∀ bs, KeepsBlocks bs r.1 → m₂ = r.1) :
    (TakesSlot m (mcbFree m₂ psp).1 ∨ KeepsBlocks bs (mcbFree m₂ psp).1) ∧
      (SameHoldings m (mcbFree m₂ psp).1 ↔ LoadClean host path m₁) := by
  have hready := sameHoldings_mcbReady m
  rw [← childSpace_ready] at hspace
  rcases childSpace_taken (mcbReady_init m) hc hspace with ⟨hzero, -⟩ | ⟨-, ⟨bs₁, b, ht⟩, hm₁⟩
  · exact absurd hzero hpsp
  · have hpm := (mcbReady_memOk hm).pm
    have hm₁ok : MemOk m₁ := by
      refine ⟨?_, fun _ => ⟨bs₁, ht.chain⟩⟩
      rw [hm₁]
      exact ⟨hpm.packed, hpm.high, hpm.fresh⟩
    have hfree : m₁.ldtInUse = m.ldtInUse := by
      rw [hm₁]
      exact hready.slots
    obtain ⟨hkeeps, hiff⟩ := load_holdings hm₁ok hfit h
    rcases hkeeps with htakes | hkeeps
    · -- a slot that the load has taken stays taken
      have htakes' : TakesSlot m (mcbFree m₂ psp).1 := by
        obtain ⟨i, hi, hi'⟩ := htakes
        refine ⟨i, hfree ▸ hi, ?_⟩
        rw [mcbFree_setMem]
        exact (congrFun hslots i).trans hi'
      exact ⟨Or.inl htakes', iff_of_false htakes'.not_same fun hclean => htakes.not_same (hiff.mpr hclean)⟩
    · have hk := hkeeps bs₁ ht.init ht.chain
      obtain rfl := hsame bs₁ hk
      obtain ⟨hk', hfreed⟩ := freed_holdings (mcbReady_init m) hc ht hm₁ hk
      refine ⟨Or.inr hk', Iff.trans ⟨fun h => ?_, fun h => ?_⟩ hiff⟩
      · exact hfreed.mp (hready.symm.trans h)
      · exact hready.trans (hfreed.mpr h)

/-- `set_cf` changes nothing of it: the FLAGS image is not in a header. -/
theorem setCf_holdings (hc : Chain (mcbReady m).mem bs) (hown : FlagsOwned m) (hflags : flagsAddr m' = flagsAddr m)
    (hk : TakesSlot m m' ∨ KeepsBlocks bs m') (v : Bool) :
    SameHoldings m (setCf m' v) ↔ SameHoldings m m' := by
  rcases hk with htakes | ⟨hi, bs', hc', hmono⟩
  · have htakes' : TakesSlot m (setCf m' v) := htakes
    exact iff_of_false htakes'.not_same htakes.not_same
  · have hclear : flagsAddr m' ∉ headerBytes bs' := by
      rw [hflags]
      rcases hown bs hc with hout | ⟨q, b, ha, h₁, h₂⟩
      · exact headerBytes_inside hc' hout
      · exact not_headerBytes_of_data (hmono q b ha).1 h₁ h₂
    have hchain : Chain (setCf m' v).mem bs' := hc'.frame (setCf_off m' v) fun x hx => by
      rw [Set.mem_singleton_iff.mp hx]
      exact hclear
    have hi' : (setCf m' v).mcbInitialised = true := hi
    have hsame : SameHoldings m' (setCf m' v) :=
      (sameHoldings_iff hi hc' hi' hchain).mpr ⟨fun _ _ => Iff.rfl, List.Perm.refl _, rfl, rfl⟩
    exact ⟨fun h => h.trans hsame.symm, fun h => h.trans hsame⟩

/-- AH=4B leaves the stack segment and ESP alone until the child starts. -/
theorem flagsAddr_loader (h : LoaderFrame m m') : flagsAddr m' = flagsAddr m := by
  rw [h.eq]
  rfl

end Child

/-! ### The failures -/

section Failures

variable {eng : Engine} {host : Host} {m m' : Machine} {bs : List (Block Nat)}

/-- A failed AH=4B, before its error code and its `set_cf`. -/
structure Refused (host : Host) (m q : Machine) (bs : List (Block Nat)) : Prop where
  frame : LoaderFrame m q
  keeps : TakesSlot m q ∨ KeepsBlocks bs q
  holdings : SameHoldings m q ↔ ChildLoads host m fun path m₁ _ => LoadClean host path m₁

theorem childLoads_iff {P : List Nat → Machine → Nat → Prop} {m₁ : Machine} {psp : Nat}
    (hfile : (host.contents (host.resolvePath (dosPath m))).isNone = false)
    (hspace : childSpace m = some (m₁, psp)) (hpsp : psp ≠ 0) :
    ChildLoads host m P ↔ P (host.resolvePath (dosPath m)) m₁ psp := by
  constructor
  · exact fun h => h hfile m₁ psp hspace hpsp
  · intro h _ m₁' psp' hspace' _
    cases hspace.symm.trans hspace'
    exact h

/-- The load has failed, or there was no block for the child. -/
theorem loadChild_refused (hm : MemOk m) (hc : Chain (mcbReady m).mem bs)
    (hfile : (host.contents (host.resolvePath (dosPath m))).isNone = false)
    (hfit : ChildLoads host m (LoadFits host)) {q : Machine} {code : Nat}
    (h : loadChild host (host.resolvePath (dosPath m)) m = some (.failed q code)) : Refused host m q bs := by
  have hframe := (loadChild_frame h).1
  unfold loadChild at h
  split at h
  · cases h
  · rename_i m₁ psp hspace
    by_cases hpsp : psp = 0
    · rw [if_pos hpsp] at h
      cases h
      rw [← childSpace_ready] at hspace
      rcases childSpace_taken (mcbReady_init m) hc hspace with ⟨-, rfl⟩ | ⟨hne, -⟩
      · refine ⟨hframe, Or.inr ⟨mcbReady_init m, bs, hc, fun _ _ ha => ha⟩,
          iff_of_true (sameHoldings_mcbReady m) fun _ m₁ psp' hspace' hpsp' => ?_⟩
        rw [← childSpace_ready] at hspace'
        cases hspace.symm.trans hspace'
        exact absurd hpsp hpsp'
      · exact absurd hpsp hne
    · rw [if_neg hpsp] at h
      rw [childLoads_iff hfile hspace hpsp] at hfit
      split at h
      · cases h
      · rename_i m₂ hload
        cases h
        obtain ⟨hkeeps, hiff⟩ := child_freed hm hc hspace hpsp hfit hload rfl fun _ _ => rfl
        exact ⟨hframe, hkeeps, hiff.trans (childLoads_iff (P := fun path m₁ _ => LoadClean host path m₁)
          hfile hspace hpsp).symm⟩
      · cases h

/-- The load has succeeded, but there is no block for the environment. -/
theorem loadChild_noEnv (hm : MemOk m) (hc : Chain (mcbReady m).mem bs)
    (hfile : (host.contents (host.resolvePath (dosPath m))).isNone = false)
    (hfit : ChildLoads host m (LoadFits host)) {m₂ q : Machine} {psp need largest : Nat} {regs : InitialRegs}
    (h : loadChild host (host.resolvePath (dosPath m)) m = some (.loaded m₂ psp regs))
    (halloc : mcbAllocate m₂ need = some (q, 0, largest)) : Refused host m (mcbFree q psp).1 bs := by
  have hframe := ((loadChild_frame h).1.trans (imageFrame_mcbAllocate halloc).loader).trans
    (imageFrame_mcbFree q psp).loader
  unfold loadChild at h
  split at h
  · cases h
  · rename_i m₁ psp' hspace
    by_cases hpsp : psp' = 0
    · rw [if_pos hpsp] at h
      cases h
    · rw [if_neg hpsp] at h
      rw [childLoads_iff hfile hspace hpsp] at hfit
      split at h
      · cases h
      · cases h
      · rename_i m₂' regs' hload
        cases h
        obtain ⟨hkeeps, hiff⟩ := child_freed hm hc hspace hpsp hfit hload (mcbAllocate_tables halloc).1
          fun bs' hk => by
            obtain ⟨hi, bs'', hc'', -⟩ := hk
            exact mcbAllocate_none hi hc'' halloc
        exact ⟨hframe, hkeeps, hiff.trans (childLoads_iff (P := fun path m₁ _ => LoadClean host path m₁)
          hfile hspace hpsp).symm⟩

theorem sameHoldings_setR16 (q : Machine) (g : Reg) (v : Nat) :
    SameHoldings m (q.setR16 g v) ↔ SameHoldings m q :=
  ⟨fun h => ⟨h.blocks, h.above, h.slots, h.extender⟩, fun h => ⟨h.blocks, h.above, h.slots, h.extender⟩⟩

/-- The error code and `set_cf`. -/
theorem Refused.failed {q : Machine} (hr : Refused host m q bs) (hc : Chain (mcbReady m).mem bs)
    (hown : FlagsOwned m) (code : Nat) :
    SameHoldings m (setCf (q.setR16 .eax code) true) ↔
      ChildLoads host m fun path m₁ _ => LoadClean host path m₁ := by
  have hcode : flagsAddr (q.setR16 .eax code) = flagsAddr q := rfl
  have hflags := hcode.trans (flagsAddr_loader hr.frame)
  have hkeeps : TakesSlot m (q.setR16 .eax code) ∨ KeepsBlocks bs (q.setR16 .eax code) := hr.keeps
  exact ((setCf_holdings hc hown hflags hkeeps true).trans (sameHoldings_setR16 q _ _)).trans hr.holdings

/-- The file is not there. -/
theorem missing_holdings (hc : Chain (mcbReady m).mem bs) (hown : FlagsOwned m) (code : Nat) :
    SameHoldings m (setCf (m.setR16 .eax code) true) := by
  by_cases hi : m.mcbInitialised = true
  · have hchain : Chain m.mem bs := by
      rw [← mcbReady_of_init hi]
      exact hc
    have hkeeps : TakesSlot m (m.setR16 .eax code) ∨ KeepsBlocks bs (m.setR16 .eax code) :=
      Or.inr ⟨hi, bs, hchain, fun _ _ ha => ha⟩
    have hflags : flagsAddr (m.setR16 .eax code) = flagsAddr m := rfl
    have hsame := (sameHoldings_setR16 m .eax code).mpr (SameHoldings.refl m)
    exact (setCf_holdings hc hown hflags hkeeps true).mpr hsame
  · rw [Bool.not_eq_true] at hi
    have hi' : (setCf (m.setR16 .eax code) true).mcbInitialised = false := hi
    exact ⟨fun p => iff_of_false (not_mem_mcbBlocks hi' p) (not_mem_mcbBlocks hi p), List.Perm.refl _, rfl, rfl⟩

/-- **What a failed load leaves behind.**  Everything is as it was before the call exactly if no extender
    has set the flag and no objects of a linear executable have been loaded. -/
theorem failedLoads_iff (c : LoadCall) (hm : MemOk m) (hfit : c.Fits host m)
    (h : c.serve eng host m = some (m', true)) : SameHoldings m m' ↔ c.Clean host m := by
  obtain ⟨bs, hc⟩ := (mcbReady_memOk hm).chain (mcbReady_init m)
  cases c with
  | load path psp =>
    obtain ⟨r, hr, heq⟩ := Option.map_eq_some_iff.mp h
    obtain ⟨rfl, -⟩ := Prod.mk.inj heq
    exact (load_holdings hm hfit hr).2
  | exec =>
    obtain ⟨⟨q, saved⟩, hr, heq⟩ := Option.map_eq_some_iff.mp h
    obtain ⟨rfl, hnone⟩ := Prod.mk.inj heq
    obtain rfl := Option.isNone_iff_eq_none.mp hnone
    obtain ⟨hown, hfit⟩ := hfit
    unfold int21_4B at hr
    dsimp only at hr
    rw [← dosPath] at hr
    split at hr
    · rename_i hmissing
      cases hr
      refine iff_of_true (missing_holdings hc hown 2) fun hfile => ?_
      rw [hmissing] at hfile
      cases hfile
    · rename_i hfile
      rw [Bool.not_eq_true] at hfile
      split at hr
      · cases hr
      · rename_i q code hload
        cases hr
        exact (loadChild_refused hm hc hfile hfit hload).failed hc hown code
      · rename_i q psp regs hload
        split at hr
        · cases hr
        · rename_i q' env largest halloc
          split at hr
          · rename_i henv
            cases hr
            rw [henv] at halloc
            exact (loadChild_noEnv hm hc hfile hfit hload halloc).failed hc hown 8
          · cases hr
  | loadOnly =>
    obtain ⟨⟨q, cf⟩, hr, heq⟩ := Option.map_eq_some_iff.mp h
    obtain ⟨rfl, hcf⟩ := Prod.mk.inj heq
    obtain rfl : cf = true := hcf
    obtain ⟨hown, hfit⟩ := hfit
    unfold int21_4B01 at hr
    dsimp only at hr
    split at hr
    · rename_i hmissing
      cases hr
      refine iff_of_true (missing_holdings hc hown 2) fun hfile => ?_
      rw [hmissing] at hfile
      cases hfile
    · rename_i hfile
      rw [Bool.not_eq_true] at hfile
      split at hr
      · cases hr
      · rename_i q code hload
        cases hr
        exact (loadChild_refused hm hc hfile hfit hload).failed hc hown code
      · cases hr

end Failures

/-! ### Two files that do not load -/

/-- A host with one file. -/
def fileHost (f : List UInt8) : Host where
  resolvePath := id
  contents := fun _ => some f
  bypassExtender := false
  leAsMz := false

/-- An object of one byte, and the table of the objects is cut off behind it. -/
def leCut : List UInt8 := leFile 0x110 ((0x84, 2) :: leStub ++ [(0xF0, 1), (0xF8, 0x04), (0xF9, 0x20)])

/-- The file of one byte, with no entry object. -/
def leEntryless : List UInt8 := leFile 0x108 ((0x58, 0) :: leStub ++ [(0xF0, 1), (0xF8, 0x04), (0xF9, 0x20)])

theorem leCut_linear (le : Nat) : LinearFile (fileHost leCut) [] le ↔ le = 0x40 := by
  have hlin : LinearFile (fileHost leCut) [] 0x40 := by
    refine ⟨?_, ?_, ?_, ?_⟩ <;> decide +kernel
  constructor
  · intro h
    cases hlin.2.2.2.symm.trans h.2.2.2
    rfl
  · rintro rfl
    exact hlin

/-- The first object has no pages. -/
theorem leCut_fits : StepsFit leCut 0x40 (mcbReady bootMachine) := by
  intro h hh i m₁ objects m₂ o hs
  have hread : (readHeader leCut 0x40).map (fun h => (h.numObjects, h.entryOff 0x40 0, h.entryOff 0x40 1)) =
      some (2, 0xF0, 0x108) := by decide +kernel
  rw [hh, Option.map_some, Option.some.injEq, Prod.mk.injEq, Prod.mk.injEq] at hread
  obtain ⟨hn, hfirst, hsecond⟩ := hread
  have hlt := hs.within
  obtain ⟨o₀, a, ho₀, rfl⟩ := leLoadObject_placed hs.loads rfl
  have hi : i = 0 ∨ i = 1 := by omega
  rcases hi with rfl | rfl
  · have hobject : (readObject leCut 0xF0).map (fun o => (o.virtSize, o.pageCount)) = some (1, 0) := by
      decide +kernel
    rw [hfirst] at ho₀
    rw [ho₀, Option.map_some, Option.some.injEq, Prod.mk.injEq] at hobject
    obtain ⟨hsize, hpages⟩ := hobject
    refine ⟨?_, fun p hp => ?_⟩
    · show o₀.virtSize ≤ 0xFFFFFFF0
      omega
    · have hp : p < o₀.pageCount := hp
      omega
  · have hnone : readObject leCut 0x108 = none := by decide +kernel
    rw [hsecond, hnone] at ho₀
    cases ho₀

/-- The second object fails, and the first is given back. -/
theorem failedLoads_iff_cut : ∃ m',
    (leLoadObjects leCut 0x40 (mcbReady bootMachine)).map (fun r => (r.2.1.length, r.2.2)) = some (1, false) ∧
      (LoadCall.load [] 0x1000).serve tableEngine (fileHost leCut) bootMachine = some (m', true) ∧
      SameHoldings bootMachine m' := by
  have hobjects : (leLoadObjects leCut 0x40 (mcbReady bootMachine)).map (fun r => (r.2.1.length, r.2.2)) =
      some (1, false) := by decide +kernel
  have hserve : ((LoadCall.load [] 0x1000).serve tableEngine (fileHost leCut) bootMachine).map (·.2) =
      some true := by decide +kernel
  obtain ⟨⟨m', failed⟩, hr, rfl⟩ := Option.map_eq_some_iff.mp hserve
  have hfits : (LoadCall.load [] 0x1000).Fits (fileHost leCut) bootMachine := by
    refine ⟨fun le hlin => ?_, fun hnone => absurd ((leCut_linear 0x40).mpr rfl) (hnone 0x40)⟩
    rw [(leCut_linear le).mp hlin]
    exact leCut_fits
  refine ⟨m', hobjects, hr, (failedLoads_iff (.load [] 0x1000) memOk_boot hfits hr).mpr
    ⟨fun hb => ?_, fun le hlin => ?_⟩⟩
  · rw [linearFile_notBound ((leCut_linear 0x40).mpr rfl)] at hb
    cases hb
  · rw [(leCut_linear le).mp hlin]
    rintro ⟨a, o, objects, hload⟩
    rw [show ((fileHost leCut).contents []).getD [] = leCut from rfl] at hload
    rw [hload, Option.map_some, Option.some.injEq, Prod.mk.injEq] at hobjects
    cases hobjects.2

/-- The loader has given one byte its memory and its descriptor when it finds no entry object. -/
theorem entryless_keeps : ¬ ∀ (eng : Engine) (host : Host) (m m' : Machine) (c : LoadCall), MemOk m →
    c.serve eng host m = some (m', true) → SameHoldings m m' := by
  intro h
  have hserve : ((LoadCall.load [] 0x1000).serve tableEngine (fileHost leEntryless) bootMachine).map
      (fun r => (r.2, r.1.ldtInUse 1)) = some (true, true) := by decide +kernel
  obtain ⟨⟨m', failed⟩, hr, heq⟩ := Option.map_eq_some_iff.mp hserve
  obtain ⟨rfl, hslot⟩ := Prod.mk.inj heq
  have hsame := h tableEngine (fileHost leEntryless) bootMachine m' (.load [] 0x1000) memOk_boot hr
  rw [hsame.slots] at hslot
  cases hslot

end Dosiz.FailedLoads
