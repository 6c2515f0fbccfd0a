/-
  Dosiz/SegmentCaches.lean
  ========================
  **Descriptor edits and loaded registers** (INT 31h AX=0007, 0008, 0009, 000C and 0102 of
  `bridge.cc`).

  A segment register keeps the base and the limit it was loaded with.  The services that edit a
  descriptor load every data segment register that holds the selector again
  (`reload_loaded_selector`); AX=0102, which writes the limit of a block's descriptor, does not.
  `reloads_iff`: the registers follow the table except after AX=0102, and where the selector
  is null.
-/
import Dosiz.LdtSlots
import Dosiz.ArenaSafety

namespace Dosiz

open ByteMemory Machine Mcb

/-! ### Cached limits -/

/-- The machine, whose registers have their cached bases, with the cached limits. -/
structure Cached where
  m : Machine
  limit : SegName → Nat

/-- The limit the engine caches when it loads a segment register. -/
abbrev LimitLoad := Mem → Cpu → SegName → Nat → Nat

namespace Cached

/-- Base and limit in the register. -/
def cache (c : Cached) (g : SegName) : Nat × Nat := (c.m.segPhys g, c.limit g)

/-- `CPU_SetSegGeneral` -/
def setSegGeneral (eng : Engine) (lim : LimitLoad) (c : Cached) (g : SegName) (v : Nat) : Cached :=
  ⟨cpuSetSegGeneral eng c.m g v, Function.update c.limit g (lim c.m.mem c.m.cpu g v)⟩

/-- The registers of `reload_loaded_selector`. -/
def dataSegs : List SegName := [.ds, .es, .fs, .gs, .ss]

/-- One register of the loop of `reload_loaded_selector`. -/
def reloadSeg (eng : Engine) (lim : LimitLoad) (key : Nat) (c : Cached) (g : SegName) : Cached :=
  if c.m.segVal g / 4 * 4 = key then c.setSegGeneral eng lim g (c.m.segVal g) else c

/-- `reload_loaded_selector` -/
def reload (eng : Engine) (lim : LimitLoad) (c : Cached) (sel : Nat) : Cached :=
  let key := sel / 4 * 4
  if key = 0 then c else dataSegs.foldl (reloadSeg eng lim key) c

end Cached

/-- Base and limit of the table entry of `sel`. -/
def tableEntry (mem : Mem) (sel : Nat) : Nat × Nat :=
  (descBase mem (descAddr sel), getLimit mem (descAddr sel))

/-- A load reads the table entry of its selector, null selectors apart. -/
structure ReadsTable (eng : Engine) (lim : LimitLoad) : Prop where
  seg : ∀ mem cpu g v, v / 4 ≠ 0 → (eng.loadSegment mem cpu g v).1 =
    ⟨BitVec.ofNat 16 v, BitVec.ofNat 32 (descBase mem (descAddr v))⟩
  limit : ∀ mem cpu g v, v / 4 ≠ 0 → lim mem cpu g v = getLimit mem (descAddr v)

/-! ### The services -/

/-- The services that edit the descriptor of BX. -/
inductive EditCall where
  | ax0007 | ax0008 | ax0009 | ax000C | ax0102
deriving DecidableEq, Repr

def EditCall.serve (eng : Engine) : EditCall → Machine → Reply
  | .ax0007 => int31_0007 eng
  | .ax0008 => int31_0008 eng
  | .ax0009 => int31_0009 eng
  | .ax000C => int31_000C eng
  | .ax0102 => int31_0102

/-- What the call writes at the descriptor; of AX=0102 the part after the block is resized. -/
def EditCall.edit (c : EditCall) (m : Machine) (mem : Mem) (p : Nat) : Mem :=
  match c with
  | .ax0007 =>
    let base := m.cx * 65536 + m.dx
    writeb (writeb (writeb (writeb mem (p + 2) base) (p + 3) (base / 256)) (p + 4) (base / 65536))
      (p + 7) (base / 16777216)
  | .ax0008 =>
    let limit := m.cx * 65536 + m.dx
    let needG := 0xFFFFF < limit
    let limit := if needG then limit / 4096 else limit
    let mem := writeb (writeb mem p limit) (p + 1) (limit / 256)
    let flags := readb mem (p + 6) / 32 % 4 * 32 + limit / 65536 % 16
    writeb mem (p + 6) (flags + if needG then 0x80 else 0)
  | .ax0009 =>
    let mem := writeb mem (p + 5) (m.r8l .ecx)
    writeb mem (p + 6) (readb mem (p + 6) % 16 + m.r8h .ecx / 16 * 16)
  | .ax000C => copyDesc mem p (esBuffer m .edi)
  | .ax0102 =>
    let newLimitBytes := lin (m.dx * 16 + 0xFFFFFFFF)
    let mem := writeb (writeb mem p newLimitBytes) (p + 1) (newLimitBytes / 256)
    writeb mem (p + 6) (readb mem (p + 6) / 16 * 16 + newLimitBytes / 65536 % 16)

/-- The service with the cached limits beside the machine: AX=0102 loads no register. -/
def EditCall.serveCached (eng : Engine) (lim : LimitLoad) (c : EditCall) (s : Cached) :
    Option (Cached × Bool) :=
  if c = .ax0102 then (int31_0102 s.m).map fun r => (⟨r.1, s.limit⟩, r.2)
  else if !selectorIsValid s.m.bx then some (⟨(failWith s.m 0x8022).1, s.limit⟩, true)
  else
    some (Cached.reload eng lim ⟨{ s.m with mem := c.edit s.m s.m.mem (bxDesc s.m) }, s.limit⟩ s.m.bx, false)

section Caches

variable {eng : Engine} {lim : LimitLoad} {c : EditCall} {s t : Cached}

theorem Cached.reload_m (s : Cached) (sel : Nat) :
    (s.reload eng lim sel).m = reloadLoadedSelector eng s.m sel := by
  have hseg : ∀ (c : Cached) (key : Nat) g, (c.reloadSeg eng lim key g).m =
      if c.m.segVal g / 4 * 4 = key then cpuSetSegGeneral eng c.m g (c.m.segVal g) else c.m := by
    intro c key g
    unfold reloadSeg
    split <;> rfl
  unfold reload reloadLoadedSelector
  dsimp only
  split
  · rfl
  · simp only [dataSegs, List.foldl_cons, List.foldl_nil, hseg]

/-- Without the limits it is the service. -/
theorem serveCached_machine : (c.serveCached eng lim s).map (fun r => (r.1.m, r.2)) = c.serve eng s.m := by
  have hedit : ∀ f : Mem → Nat → Mem, editDesc eng s.m f =
      if !selectorIsValid s.m.bx then some (failWith s.m 0x8022)
      else some (reloadLoadedSelector eng { s.m with mem := f s.m.mem (bxDesc s.m) } s.m.bx, false) :=
    fun _ => rfl
  unfold EditCall.serveCached
  by_cases hc : c = .ax0102
  · subst hc
    rw [if_pos rfl]
    show Option.map _ (Option.map _ (int31_0102 s.m)) = int31_0102 s.m
    rw [Option.map_map]
    exact congrFun Option.map_id (int31_0102 s.m)
  · rw [if_neg hc]
    have hserve : c.serve eng s.m = editDesc eng s.m (c.edit s.m) := by
      cases c <;> first | rfl | exact absurd rfl hc
    rw [hserve, hedit]
    split
    · rfl
    · rw [Option.map_some, Cached.reload_m]

/-! ### The registers after a call -/

/-- Every register that holds `sel` has the table's entry, the others what they had. -/
structure Coherent (sel : Nat) (s t : Cached) : Prop where
  selectors : ∀ g, t.m.segVal g = s.m.segVal g
  fresh : ∀ g ∈ Cached.dataSegs, s.m.segVal g / 4 = sel / 4 → t.cache g = tableEntry t.m.mem sel
  others : ∀ g ∈ Cached.dataSegs, s.m.segVal g / 4 ≠ sel / 4 → t.cache g = s.cache g

theorem descAddr_rpl {v sel : Nat} (h : v / 4 = sel / 4) : descAddr v = descAddr sel := by
  have h₈ : v / 8 = sel / 8 := by
    omega
  rw [descAddr, descAddr, selectorTableBase, selectorTableBase, h, h₈]

theorem setSegGeneral_cache (h : ReadsTable eng lim) {g : SegName} {v : Nat} (hv : v / 4 ≠ 0) :
    (s.setSegGeneral eng lim g v).cache g = tableEntry s.m.mem v := by
  have hseg := h.seg s.m.mem s.m.cpu g v hv
  have hlimit := h.limit s.m.mem s.m.cpu g v hv
  have hbase := descBase_lt s.m.mem (descAddr v)
  refine Prod.ext ?_ ?_
  · show (Function.update s.m.cpu.segs g (eng.loadSegment s.m.mem s.m.cpu g v).1 g).phys.toNat = _
    rw [Function.update_self, hseg, BitVec.toNat_ofNat, Nat.mod_eq_of_lt hbase]
    rfl
  · exact (Function.update_self _ _ _).trans hlimit

theorem setSegGeneral_other {g g' : SegName} (hne : g' ≠ g) (v : Nat) :
    (s.setSegGeneral eng lim g v).cache g' = s.cache g' ∧
      (s.setSegGeneral eng lim g v).m.segVal g' = s.m.segVal g' := by
  have hseg : (s.setSegGeneral eng lim g v).m.cpu.segs g' = s.m.cpu.segs g' := Function.update_of_ne hne _ _
  refine ⟨Prod.ext ?_ (Function.update_of_ne hne _ _), ?_⟩
  · exact congrArg (fun r : SegReg => r.phys.toNat) hseg
  · exact congrArg (fun r : SegReg => r.val.toNat) hseg

theorem setSegGeneral_self (h : ReadsTable eng lim) {g : SegName} (hv : s.m.segVal g / 4 ≠ 0) :
    (s.setSegGeneral eng lim g (s.m.segVal g)).m.segVal g = s.m.segVal g := by
  have hlt : s.m.segVal g < 65536 := (s.m.cpu.segs g).val.isLt
  show (Function.update s.m.cpu.segs g (eng.loadSegment s.m.mem s.m.cpu g (s.m.segVal g)).1 g).val.toNat = _
  rw [Function.update_self, h.seg _ _ _ _ hv, BitVec.toNat_ofNat, Nat.mod_eq_of_lt hlt]

/-- One register of the loop. -/
theorem reloadSeg_spec (h : ReadsTable eng lim) {sel : Nat} (hsel : sel / 4 ≠ 0) (s : Cached) (g : SegName) :
    (s.reloadSeg eng lim (sel / 4 * 4) g).m.mem = s.m.mem ∧
      (∀ g', (s.reloadSeg eng lim (sel / 4 * 4) g).m.segVal g' = s.m.segVal g') ∧
      (∀ g', g' ≠ g → (s.reloadSeg eng lim (sel / 4 * 4) g).cache g' = s.cache g') ∧
      (s.reloadSeg eng lim (sel / 4 * 4) g).cache g =
        if s.m.segVal g / 4 = sel / 4 then tableEntry s.m.mem sel else s.cache g := by
  unfold Cached.reloadSeg
  by_cases hholds : s.m.segVal g / 4 = sel / 4
  · rw [if_pos (by omega), if_pos hholds]
    have hv : s.m.segVal g / 4 ≠ 0 := hholds ▸ hsel
    refine ⟨rfl, fun g' => ?_, fun g' hne => (setSegGeneral_other hne _).1, ?_⟩
    · by_cases hg : g' = g
      · subst hg
        exact setSegGeneral_self h hv
      · exact (setSegGeneral_other hg _).2
    · rw [setSegGeneral_cache h hv, tableEntry, descAddr_rpl hholds, tableEntry]
  · rw [if_neg (by omega), if_neg hholds]
    exact ⟨rfl, fun _ => rfl, fun _ _ => rfl, rfl⟩

/-- The loop. -/
theorem reloadSegs_spec (h : ReadsTable eng lim) {sel : Nat} (hsel : sel / 4 ≠ 0) (gs : List SegName) :
    gs.Nodup → ∀ s : Cached, (gs.foldl (Cached.reloadSeg eng lim (sel / 4 * 4)) s).m.mem = s.m.mem ∧
      (∀ g', (gs.foldl (Cached.reloadSeg eng lim (sel / 4 * 4)) s).m.segVal g' = s.m.segVal g') ∧
      ∀ g', (gs.foldl (Cached.reloadSeg eng lim (sel / 4 * 4)) s).cache g' =
        if g' ∈ gs ∧ s.m.segVal g' / 4 = sel / 4 then tableEntry s.m.mem sel else s.cache g' := by
  induction gs with
  | nil => exact fun _ s => ⟨rfl, fun _ => rfl, fun g' => (if_neg fun h => absurd h.1 List.not_mem_nil).symm⟩
  | cons g gs ih =>
    intro hnd s
    obtain ⟨hg, hnd⟩ := List.nodup_cons.mp hnd
    obtain ⟨hmem, hvals, hother, hself⟩ := reloadSeg_spec h hsel s g
    obtain ⟨hmem', hvals', hcache'⟩ := ih hnd (s.reloadSeg eng lim (sel / 4 * 4) g)
    refine ⟨hmem'.trans hmem, fun g' => (hvals' g').trans (hvals g'), fun g' => ?_⟩
    rw [List.foldl_cons, hcache' g', hvals g', hmem]
    by_cases hgg : g' = g
    · subst hgg
      rw [if_neg fun h => hg h.1, hself]
      simp only [List.mem_cons_self, true_and]
    · rw [hother g' hgg]
      simp only [List.mem_cons, hgg, false_or]

theorem reload_coherent (h : ReadsTable eng lim) {sel : Nat} (hsel : sel / 4 ≠ 0) (s : Cached) :
    Coherent sel s (s.reload eng lim sel) := by
  have hkey : sel / 4 * 4 ≠ 0 := by
    omega
  obtain ⟨hmem, hvals, hcache⟩ := reloadSegs_spec h hsel Cached.dataSegs (by decide) s
  unfold Cached.reload
  dsimp only
  rw [if_neg hkey]
  refine ⟨hvals, fun g hg hholds => ?_, fun g hg hne => ?_⟩
  · rw [hcache g, if_pos ⟨hg, hholds⟩, hmem]
  · rw [hcache g, if_neg fun h => hne h.2]

/-- A call on a selector that is valid succeeds. -/
theorem serveCached_valid (hc : c ≠ .ax0102) (hvalid : selectorIsValid s.m.bx = true) :
    ∃ t, c.serveCached eng lim s = some (t, false) := by
  rw [EditCall.serveCached, if_neg hc, hvalid, if_neg (by decide)]
  exact ⟨_, rfl⟩

/-! ### Which calls keep the registers up -/

/-- Base and limit of the descriptor as the call leaves it. -/
def EditCall.written (c : EditCall) (m : Machine) : Nat × Nat :=
  tableEntry (c.edit m m.mem (bxDesc m)) m.bx

theorem mcbResize_cpu (m : Machine) (seg n : Nat) : (mcbResize m seg n).1.cpu = m.cpu := by
  unfold mcbResize
  split <;> rfl

/-- The edit of AX=0102 sees the bytes of the descriptor alone. -/
theorem tableEntry_resized (m : Machine) {mem mem' : Mem} {sel : Nat}
    (h : ∀ k, readb mem' (descAddr sel + k) = readb mem (descAddr sel + k)) :
    tableEntry (EditCall.edit .ax0102 m mem' (descAddr sel)) sel =
      tableEntry (EditCall.edit .ax0102 m mem (descAddr sel)) sel := by
  simp (disch := omega) only [tableEntry, EditCall.edit, getLimit, descLimit, descBase, readb_writeb,
    readb_writeb_of_ne, h]

theorem int31_0102_entry {m r : Machine} (h : int31_0102 m = some (r, false)) :
    r.cpu = m.cpu ∧ m.bx / 4 ≠ 0 ∧ tableEntry r.mem m.bx = EditCall.written .ax0102 m := by
  unfold int31_0102 at h
  rcases hslot : dosBlockSlot m m.bx with _ | idx
  · rw [hslot] at h
    cases h
  · rw [hslot] at h
    obtain ⟨hti, rfl⟩ : m.bx / 4 % 2 = 1 ∧ m.bx / 8 = idx := by
      unfold dosBlockSlot at hslot
      split_ifs at hslot with hbad hbit
      · exact ⟨by omega, Option.some.inj hslot⟩
    have hp : LDT_BASE + m.bx / 8 * 8 = descAddr m.bx := by
      rw [descAddr, selectorTableBase, if_pos hti]
    dsimp only at h
    rw [hp] at h
    split_ifs at h with hgot
    · cases h
    · cases h
      refine ⟨mcbResize_cpu m _ _, by omega, ?_⟩
      have hlow := mcbResize_low m (slotDataSeg m (m.bx / 8)) m.dx
      refine tableEntry_resized m fun k => ?_
      apply hlow.readb
      rw [← hp]
      simp only [Set.mem_Iio, LDT_BASE]
      omega

/-- Where nothing is loaded, the registers have to be right before. -/
theorem coherent_idle {sel : Nat} {e : Nat × Nat} (hvals : ∀ g, t.m.segVal g = s.m.segVal g)
    (hcache : ∀ g, t.cache g = s.cache g) (hentry : tableEntry t.m.mem sel = e) : Coherent sel s t ↔
      ∀ g ∈ Cached.dataSegs, s.m.segVal g / 4 = sel / 4 → s.cache g = e := by
  constructor
  · intro hc g hg hholds
    rw [← hcache g, hc.fresh g hg hholds, hentry]
  · intro hall
    refine ⟨hvals, fun g hg hholds => ?_, fun g _ _ => hcache g⟩
    rw [hcache g, hall g hg hholds, hentry]

theorem coherent_resized {r : Machine} (hr : int31_0102 s.m = some (r, false)) :
    Coherent s.m.bx s ⟨r, s.limit⟩ ↔
      ∀ g ∈ Cached.dataSegs, s.m.segVal g / 4 = s.m.bx / 4 → s.cache g = EditCall.written .ax0102 s.m := by
  obtain ⟨hcpu, -, hentry⟩ := int31_0102_entry hr
  have hseg : ∀ g, r.cpu.segs g = s.m.cpu.segs g := fun g => by
    rw [hcpu]
  refine coherent_idle (fun g => ?_) (fun g => Prod.ext ?_ rfl) hentry
  · exact congrArg (fun x : SegReg => x.val.toNat) (hseg g)
  · exact congrArg (fun x : SegReg => x.phys.toNat) (hseg g)

/-- **The registers follow the table** after a call that succeeds exactly where the call reloads
    them, or where every register that holds the selector already has what the call writes. -/
theorem reloads_iff (h : ReadsTable eng lim) (hs : c.serveCached eng lim s = some (t, false)) :
    Coherent s.m.bx s t ↔ (c ≠ .ax0102 ∧ s.m.bx / 4 ≠ 0) ∨
      ∀ g ∈ Cached.dataSegs, s.m.segVal g / 4 = s.m.bx / 4 → s.cache g = c.written s.m := by
  unfold EditCall.serveCached at hs
  by_cases hc : c = .ax0102
  · subst hc
    rw [if_pos rfl] at hs
    obtain ⟨⟨r, cf⟩, hr, heq⟩ := Option.map_eq_some_iff.mp hs
    cases heq
    rw [coherent_resized hr]
    exact ⟨Or.inr, fun h => h.resolve_left fun h => h.1 rfl⟩
  · rw [if_neg hc] at hs
    split at hs
    · cases hs
    · by_cases hnull : s.m.bx / 4 = 0
      · -- a null selector: the loop is not entered
        have hkey : s.m.bx / 4 * 4 = 0 := by
          rw [hnull]
        rw [Cached.reload, if_pos hkey] at hs
        cases hs
        have hentry : tableEntry (c.edit s.m s.m.mem (bxDesc s.m)) s.m.bx = c.written s.m := rfl
        have hidle := coherent_idle (s := s)
          (t := ⟨{ s.m with mem := c.edit s.m s.m.mem (bxDesc s.m) }, s.limit⟩) (fun _ => rfl)
          (fun _ => rfl) hentry
        exact hidle.trans ⟨Or.inr, fun h => h.resolve_left fun h => h.2 hnull⟩
      · cases hs
        have hco := reload_coherent h hnull
          ⟨{ s.m with mem := c.edit s.m s.m.mem (bxDesc s.m) }, s.limit⟩
        exact iff_of_true ⟨hco.selectors, hco.fresh, hco.others⟩ (Or.inl ⟨hc, hnull⟩)

end Caches

/-! ### A block that grows under a loaded register -/

/-- The limits of `tableEngine`. -/
def tableLimit : LimitLoad := fun mem _ _ v => getLimit mem (descAddr v)

theorem tableEngine_reads : ReadsTable tableEngine tableLimit :=
  ⟨fun _ _ _ _ _ => rfl, fun _ _ _ _ _ => rfl⟩

/-- A client with a DOS block of 16 paragraphs. -/
def blockClient : Machine :=
  ((int31_0100 { bootMachine with cpu := arenaCpu 0x10 0 }).getD (bootMachine, true)).1

/-- It has loaded the selector of the block into DS, and asks for 32 paragraphs. -/
def growing : Cached :=
  ⟨(cpuSetSegGeneral tableEngine blockClient .ds 0x0C).setR16s [(.ebx, 0x0C), (.edx, 0x20)], fun _ => 0xFF⟩

theorem growing_bx : growing.m.bx = 0x0C := by
  decide +kernel

theorem reloads_iff_base : ∃ t, EditCall.ax0007.serveCached tableEngine tableLimit growing = some (t, false) ∧
    Coherent growing.m.bx growing t := by
  have hvalid : selectorIsValid growing.m.bx = true := by
    rw [growing_bx]
    rfl
  have hnull : growing.m.bx / 4 ≠ 0 := by
    rw [growing_bx]
    decide
  have hserve : ∃ t, EditCall.ax0007.serveCached tableEngine tableLimit growing = some (t, false) :=
    serveCached_valid (by decide) hvalid
  obtain ⟨t, ht⟩ := hserve
  exact ⟨t, ht, (reloads_iff tableEngine_reads ht).mpr (Or.inl ⟨by decide, hnull⟩)⟩

/-- The descriptor of the block has the limit 1FFh, DS has 0FFh. -/
theorem resized_not_reloaded : ∃ t, EditCall.ax0102.serveCached tableEngine tableLimit growing = some (t, false) ∧
    ¬ Coherent growing.m.bx growing t := by
  have hok : (int31_0102 growing.m).map (·.2) = some false := by
    decide +kernel
  obtain ⟨⟨r, cf⟩, hr, rfl⟩ := Option.map_eq_some_iff.mp hok
  have hserve : EditCall.ax0102.serveCached tableEngine tableLimit growing = some (⟨r, growing.limit⟩, false) := by
    rw [EditCall.serveCached, if_pos rfl, hr]
    rfl
  refine ⟨_, hserve, fun hco => ?_⟩
  have hds : growing.m.segVal .ds / 4 = growing.m.bx / 4 := by
    decide +kernel
  have hlimit : growing.cache .ds ≠ EditCall.written .ax0102 growing.m := by
    decide +kernel
  exact hlimit ((coherent_resized hr).mp hco .ds (by decide) hds)

end Dosiz
