/-
  Dosiz/LdtSlots.lean
  ===================
  **The LDT and its slots** (INT 31h AX=0000 to 000D, 0100 to 0102 of `bridge.cc`).

  One bitmap says which of the 256 slots are taken; five functions take slots and two give
  them back.  Each function is inverted once, into what it does to the bitmap, to the
  segment conversions (`s_seg2desc_cache`) and to the bases of the descriptors.  From that:
  slot 0 stays reserved, a slot is handed out while it is free only, and the run search is
  first-fit and complete.
-/
import Mathlib.Order.Interval.Set.Basic
import Dosiz.ServiceFrame
import Dosiz.ClientEntry

namespace Dosiz

open ByteMemory Machine Mcb Transition

/-! ### First fit -/

/-- `count` free slots from `start` on. -/
def FreeRun (inUse : Nat → Bool) (start count : Nat) : Prop :=
  ∀ i, start ≤ i → i < start + count → inUse i = false

/-- `r` is the lowest start of `count` free slots between 1 and `hi`, or 0 if there are none. -/
def FirstFit (inUse : Nat → Bool) (count hi r : Nat) : Prop :=
  (r ≠ 0 ∧ r + count ≤ hi ∧ FreeRun inUse r count ∧ ∀ s, 1 ≤ s → s < r → ¬ FreeRun inUse s count) ∨
    (r = 0 ∧ ∀ s, 1 ≤ s → s + count ≤ hi → ¬ FreeRun inUse s count)

/-- The scan has `have_` free slots behind it and no run that begins before them. -/
theorem ldtScan_firstFit {inUse : Nat → Bool} {count : Nat} :
    ∀ {n i start have_ : Nat}, have_ < count → have_ < i → (have_ ≠ 0 → start + have_ = i) →
      FreeRun inUse (i - have_) have_ →
      (∀ s, 1 ≤ s → s < i - have_ → ¬ FreeRun inUse s count) →
      FirstFit inUse count (i + n) (ldtScan inUse count n i start have_)
  | 0, i, start, have_, hlt, hi, _, _, hnone => by
    right
    constructor
    · rfl
    · intro s hs hle
      exact hnone s hs (by omega)
  | n + 1, i, start, have_, hlt, hi, hstart, hrun, hnone => by
    have hadd : i + (n + 1) = i + 1 + n := by omega
    rw [hadd]
    unfold ldtScan
    dsimp only
    by_cases hused : inUse i
    · rw [if_pos hused]
      apply ldtScan_firstFit (by omega) (by omega) (by simp)
      · intro j h₁ h₂
        omega
      · -- a run across slot `i` would need it free
        intro s hs hlt' hfree
        by_cases hbefore : s < i - have_
        · exact hnone s hs hbefore hfree
        · have hfree_i := hfree i (by omega) (by omega)
          rw [hused] at hfree_i
          cases hfree_i
    · rw [if_neg hused]
      have hst : (if have_ = 0 then i else start) = i - have_ := by
        split
        · omega
        · have := hstart (by assumption)
          omega
      have hrun' : FreeRun inUse (i - have_) (have_ + 1) := by
        intro j h₁ h₂
        rcases Nat.lt_or_ge j i with hj | hj
        · exact hrun j h₁ (by omega)
        · have : j = i := by omega
          subst this
          exact Bool.eq_false_iff.mpr hused
      rw [hst]
      by_cases hdone : have_ + 1 = count
      · rw [if_pos hdone]
        left
        refine ⟨by omega, by omega, ?_, hnone⟩
        rw [← hdone]
        exact hrun'
      · rw [if_neg hdone]
        apply ldtScan_firstFit (by omega) (by omega)
        · intro _
          omega
        · have : i + 1 - (have_ + 1) = i - have_ := by omega
          rw [this]
          exact hrun'
        · intro s hs hlt'
          exact hnone s hs (by omega)

theorem ldtFindRun_firstFit (m : Machine) {count : Nat} (h : 0 < count) :
    FirstFit m.ldtInUse count LDT_COUNT (ldtFindRun m count) :=
  ldtScan_firstFit h (by decide) (by simp) (fun i h₁ h₂ => by omega) (fun s h₁ h₂ => by omega)

/-! ### The arena lies below the tables -/

/-- The memory the arena functions work on: 64K paragraphs. -/
abbrev firstMegabyte : Set Nat := Set.Iio 0x100000

theorem writeb_low (mem : Mem) {a : Nat} (h : a < 0x100000) (v : Nat) :
    AgreesOff firstMegabyte mem (writeb mem a v) :=
  (writeb_off mem a v).mono fun x hx => by
    simp only [Set.mem_Ico, Set.mem_Iio] at hx ⊢
    omega

theorem writew_low (mem : Mem) {a : Nat} (h : a + 1 < 0x100000) (v : Nat) :
    AgreesOff firstMegabyte mem (writew mem a v) :=
  (writeb_low mem (by omega) v).trans (writeb_low _ h _)

theorem mcbInit_low (mem : Mem) : AgreesOff firstMegabyte mem (mcbInit mem) := by
  unfold mcbInit
  refine AgreesOff.trans ?_ (writew_low _ (by decide) _)
  refine AgreesOff.trans ?_ (writew_low _ (by decide) _)
  refine AgreesOff.trans ?_ (writeb_low _ (by decide) _)
  refine AgreesOff.trans ?_ (writew_low _ (by decide) _)
  exact (writeb_low mem (by decide) _).trans (writew_low _ (by decide) _)

theorem mcbWalk_lt (mem : Mem) (need : Nat) : ∀ {fuel seg largest s l : Nat}, seg < 65536 →
    mcbWalk mem need fuel seg largest = some (s, l) → s < 65536
  | 0, _, _, _, _, _, h => by cases h
  | fuel + 1, seg, largest, s, l, hseg, h => by
    unfold mcbWalk at h
    dsimp only at h
    split_ifs at h
    · cases h
      exact Nat.zero_lt_succ _
    · cases h
      exact hseg
    · cases h
      exact Nat.zero_lt_succ _
    · cases h
      exact Nat.zero_lt_succ _
    · exact mcbWalk_lt mem need (Nat.mod_lt _ (by decide)) h
    · exact mcbWalk_lt mem need (Nat.mod_lt _ (by decide)) h

theorem mcbSplit_low (mem : Mem) {p : Nat} (hp : p < 65536) (need : Nat) :
    AgreesOff firstMegabyte mem (mcbSplit mem p need) := by
  have hnext : (p + 1 + need) % 65536 < 65536 := Nat.mod_lt _ (by decide)
  unfold mcbSplit
  dsimp only
  split
  · exact AgreesOff.refl _ _
  · refine AgreesOff.trans ?_ (writew_low _ (by omega) _)
    refine AgreesOff.trans ?_ (writeb_low _ (by omega) _)
    refine AgreesOff.trans ?_ (writew_low _ (by omega) _)
    exact (writeb_low mem (by omega) _).trans (writew_low _ (by omega) _)

theorem mcbReady_low (m : Machine) : AgreesOff firstMegabyte m.mem (mcbReady m).mem := by
  unfold mcbReady
  split
  · exact AgreesOff.refl _ _
  · exact mcbInit_low m.mem

theorem mcbAllocate_low {m : Machine} {need : Nat} {r : Machine × Nat × Nat}
    (h : mcbAllocate m need = some r) : AgreesOff firstMegabyte m.mem r.1.mem := by
  unfold mcbAllocate mcbAllocateIn at h
  dsimp only at h
  rcases hfind : mcbFindFree (mcbReady m).mem need with _ | ⟨seg, largest⟩
  · rw [hfind] at h
    cases h
  · rw [hfind] at h
    have hseg : seg < 65536 := mcbWalk_lt _ need (by decide) hfind
    dsimp only at h
    split_ifs at h
    · cases h
      exact mcbReady_low m
    · cases h
      refine (mcbReady_low m).trans ((mcbSplit_low _ hseg need).trans ?_)
      exact writew_low _ (by omega) _

theorem mcbFreeIn_low (mem : Mem) (dataSeg : Nat) :
    AgreesOff firstMegabyte mem (mcbFreeIn mem dataSeg).1 := by
  have hseg : (dataSeg + 65535) % 65536 < 65536 := Nat.mod_lt _ (by decide)
  have howner := writew_low mem (a := (dataSeg + 65535) % 65536 * 16 + 1) (by omega) 0
  unfold mcbFreeIn
  dsimp only
  split
  · exact AgreesOff.refl _ _
  · split
    · exact howner
    · split
      · exact howner
      · exact howner.trans ((writew_low _ (by omega) _).trans (writeb_low _ (by omega) _))

theorem mcbFree_low (m : Machine) (dataSeg : Nat) :
    AgreesOff firstMegabyte m.mem (mcbFree m dataSeg).1.mem := by
  unfold mcbFree
  split
  · exact mcbFreeIn_low m.mem dataSeg
  · exact AgreesOff.refl _ _

theorem mcbResizeIn_low (mem : Mem) (dataSeg newSize : Nat) :
    AgreesOff firstMegabyte mem (mcbResizeIn mem dataSeg newSize).1 := by
  have hseg : (dataSeg + 65535) % 65536 < 65536 := Nat.mod_lt _ (by decide)
  unfold mcbResizeIn
  dsimp only
  split_ifs
  · exact AgreesOff.refl _ _
  · exact AgreesOff.refl _ _
  · exact mcbSplit_low mem hseg newSize
  · exact AgreesOff.refl _ _
  · exact AgreesOff.refl _ _
  · exact AgreesOff.refl _ _
  · dsimp only
    refine AgreesOff.trans ?_ (mcbSplit_low _ hseg newSize)
    refine AgreesOff.trans ?_ (writew_low _ (by omega) _)
    exact writeb_low mem (by omega) _

theorem mcbResize_low (m : Machine) (dataSeg newSize : Nat) :
    AgreesOff firstMegabyte m.mem (mcbResize m dataSeg newSize).1.mem := by
  unfold mcbResize
  split
  · exact mcbResizeIn_low m.mem dataSeg newSize
  · exact AgreesOff.refl _ _

/-! ### The table as the services see it -/

/-- The base of the descriptor in slot `i`. -/
def slotBase (mem : Mem) (i : Nat) : Nat := descBase mem (LDT_BASE + i * 8)

/-- Which slots are taken, the slot of each converted segment, the bases, the client's ring. -/
structure LdtView where
  inUse : Nat → Bool
  conv : Nat → Nat
  base : Nat → Nat
  cpl : Nat

def Machine.ldtView (m : Machine) : LdtView :=
  ⟨m.ldtInUse, m.seg2descCache, slotBase m.mem, m.clientCpl⟩

namespace LdtView

/-- Take the slots from `start` on, with descriptors of base `base`. -/
def take (v : LdtView) (start count base : Nat) : LdtView :=
  { v with
    inUse := fun i => v.inUse i || (start ≤ i && i < start + count)
    base := fun i => if start ≤ i ∧ i < start + count then base else v.base i }

/-- Remember slot `idx` for the segment `seg`. -/
def convert (v : LdtView) (seg idx : Nat) : LdtView :=
  { v with conv := Function.update v.conv seg idx }

/-- Give slot `idx` back. -/
def free (v : LdtView) (idx : Nat) : LdtView :=
  { v with inUse := Function.update v.inUse idx false }

/-- Forget every segment that slot `idx` is remembered for. -/
def forget (v : LdtView) (idx : Nat) : LdtView :=
  { v with conv := fun s => if v.conv s = idx then 0 else v.conv s }

def setBase (v : LdtView) (idx base : Nat) : LdtView :=
  { v with base := Function.update v.base idx base }

theorem convert_self (v : LdtView) (seg idx : Nat) : (v.convert seg idx).conv seg = idx := by
  rw [convert]
  exact Function.update_self seg idx v.conv

theorem convert_of_ne (v : LdtView) {s seg : Nat} (h : s ≠ seg) (idx : Nat) :
    (v.convert seg idx).conv s = v.conv s := by
  rw [convert]
  exact Function.update_of_ne h idx v.conv

theorem setBase_self (v : LdtView) (idx base : Nat) : (v.setBase idx base).base idx = base := by
  rw [setBase]
  exact Function.update_self idx base v.base

theorem setBase_of_ne (v : LdtView) {i idx : Nat} (h : i ≠ idx) (base : Nat) :
    (v.setBase idx base).base i = v.base i := by
  rw [setBase]
  exact Function.update_of_ne h base v.base

end LdtView

theorem slotBase_of_low {mem mem' : Mem} (h : AgreesOff firstMegabyte mem mem') :
    slotBase mem' = slotBase mem := by
  funext i
  have hb : ∀ k, readb mem' (LDT_BASE + i * 8 + k) = readb mem (LDT_BASE + i * 8 + k) := fun k =>
    h.readb (by simp only [Set.mem_Iio, LDT_BASE]; omega)
  simp only [slotBase, descBase, hb]

/-- Writing inside slot `idx` leaves the other bases. -/
theorem slotBase_of_slot {mem mem' : Mem} {idx : Nat}
    (h : AgreesOff (Set.Ico (LDT_BASE + idx * 8) (LDT_BASE + idx * 8 + 8)) mem mem') :
    slotBase mem' = Function.update (slotBase mem) idx (slotBase mem' idx) := by
  funext i
  by_cases hi : i = idx
  · rw [hi, Function.update_self]
  · rw [Function.update_of_ne hi]
    have hb : ∀ k < 8, readb mem' (LDT_BASE + i * 8 + k) = readb mem (LDT_BASE + i * 8 + k) := by
      intro k hk
      apply h.readb
      simp only [Set.mem_Ico]
      omega
    simp only [slotBase, descBase, hb 2 (by decide), hb 3 (by decide), hb 4 (by decide),
      hb 7 (by decide)]

theorem descBase_storeBytes (mem : Mem) (p base limit access : Nat) (bits32 : Bool) :
    descBase (storeBytes mem p (descriptorBytes base limit access bits32)) p = base % 4294967296 := by
  have hb := fun k (hk : k < 8) =>
    readb_storeBytes mem p (descriptorBytes base limit access bits32) (i := k) hk
  have h₂ := hb 2 (by decide)
  have h₃ := hb 3 (by decide)
  have h₄ := hb 4 (by decide)
  have h₇ := hb 7 (by decide)
  simp only [descriptorBytes, List.getElem_cons_succ, List.getElem_cons_zero] at h₂ h₃ h₄ h₇
  simp only [descBase, descriptorBytes, h₂, h₃, h₄, h₇]
  omega

theorem slotBase_writeLdtDescriptor (mem : Mem) (idx base limit access : Nat) (bits32 : Bool) :
    slotBase (writeLdtDescriptor mem idx base limit access bits32) =
      Function.update (slotBase mem) idx (base % 4294967296) := by
  rw [slotBase_of_slot (writeLdtDescriptor_off mem idx base limit access bits32), slotBase,
    writeLdtDescriptor, descBase_storeBytes]

theorem ldtView_cpu (m : Machine) (r : Reg) (v : Nat) : (m.setR16 r v).ldtView = m.ldtView := rfl

theorem ldtView_installLdt (m : Machine) (idx base limit access : Nat) :
    (installLdt m idx base limit access).ldtView = m.ldtView.take idx 1 (base % 4294967296) := by
  simp only [installLdt, ldtSet, ldtView, LdtView.take, slotBase_writeLdtDescriptor, LdtView.mk.injEq,
    true_and, and_true]
  constructor
  · funext i
    by_cases hi : i = idx
    · subst hi
      simp
    · have hnot : (decide (idx ≤ i) && decide (i < idx + 1)) = false := by
        simp only [Bool.and_eq_false_iff, decide_eq_false_iff_not]
        omega
      rw [Function.update_of_ne hi, hnot, Bool.or_false]
  · funext i
    by_cases hi : i = idx
    · subst hi
      simp
    · rw [Function.update_of_ne hi, if_neg (by omega)]

/-- The loop of AX=0000. -/
theorem ldtView_installRun (m : Machine) (start limit access : Nat) : ∀ count,
    ((List.range count).foldl (fun r i => installLdt r (start + i) 0 limit access) m).ldtView =
      m.ldtView.take start count 0
  | 0 => by
    have hnone : ∀ i, (decide (start ≤ i) && decide (i < start + 0)) = false := by
      intro i
      simp only [Nat.add_zero, Bool.and_eq_false_iff, decide_eq_false_iff_not]
      omega
    have hnone' : ∀ i, ¬ (start ≤ i ∧ i < start + 0) := fun i => by omega
    simp only [List.range_zero, List.foldl_nil, LdtView.take, hnone, hnone', Bool.or_false, if_false]
  | count + 1 => by
    rw [List.range_succ, List.foldl_append, List.foldl_cons, List.foldl_nil, ldtView_installLdt,
      ldtView_installRun m start limit access count]
    simp only [LdtView.take, LdtView.mk.injEq, true_and, and_true]
    constructor
    · funext i
      rw [Bool.or_assoc]
      congr 1
      rw [Bool.eq_iff_iff]
      simp only [Bool.or_eq_true, Bool.and_eq_true, decide_eq_true_eq]
      omega
    · funext i
      split_ifs <;> first | rfl | omega

/-! ### What each call does to the table -/

/-- The calls that take, free, edit or convert descriptors. -/
inductive LdtCall where
  | ax0000 | ax0001 | ax0002 | ax0007 | ax000A | ax000C | ax000D | ax0100 | ax0101 | ax0102
deriving DecidableEq, Repr

def LdtCall.serve (eng : Engine) : LdtCall → Machine → Reply
  | .ax0000 => int31_0000
  | .ax0001 => int31_0001
  | .ax0002 => int31_0002
  | .ax0007 => int31_0007 eng
  | .ax000A => int31_000A
  | .ax000C => int31_000C eng
  | .ax000D => int31_000D
  | .ax0100 => int31_0100
  | .ax0101 => int31_0101
  | .ax0102 => int31_0102

/-- The slot of an LDT selector. -/
def ldtSlot (sel : Nat) : Option Nat := if sel / 4 % 2 = 1 then some (sel / 8) else none

/-- The base AX=0007 and AX=000C give the descriptor of BX. -/
def editedBase (m : Machine) : LdtCall → Nat
  | .ax000C => descBase (copyDesc m.mem (bxDesc m) (esBuffer m .edi)) (bxDesc m)
  | _ => m.cx * 65536 + m.dx

/-- Why an editing or block call is refused. -/
def RefusedFor (m : Machine) : LdtCall → Prop
  | .ax0007 | .ax000C => selectorIsValid m.bx = false
  | .ax0100 => m.bx = 0 ∨ (∃ a, mcbAllocate m m.bx = some a ∧ a.2.1 = 0) ∨ ldtFindRun m 1 = 0
  | .ax0101 => dosBlockSlot m m.dx = none
  | _ => True

/-- What a call that is answered does to the table, and what it answers. -/
inductive LdtEffect (m : Machine) : LdtCall → Machine → Bool → Prop
  | refused {c r} (why : RefusedFor m c) (view : r.ldtView = m.ldtView) : LdtEffect m c r true
  | run {r} (start : Nat) (pos : start ≠ 0) (count : 1 ≤ m.cx)
      (first : FirstFit m.ldtInUse m.cx LDT_COUNT start)
      (view : r.ldtView = m.ldtView.take start m.cx 0) (answer : r.ax = clientSelector m start) :
      LdtEffect m .ax0000 r false
  | freed {r} (idx : Nat) (arg : freeArg m = some idx)
      (view : r.ldtView = (m.ldtView.free idx).forget idx) : LdtEffect m .ax0001 r false
  | cached {r} (hit : m.seg2descCache m.bx ≠ 0) (view : r.ldtView = m.ldtView)
      (answer : r.ax = clientSelector m (m.seg2descCache m.bx) % 65536) :
      LdtEffect m .ax0002 r false
  | converted {r} (idx : Nat) (pos : idx ≠ 0) (miss : m.seg2descCache m.bx = 0)
      (first : FirstFit m.ldtInUse 1 LDT_COUNT idx)
      (view : r.ldtView = (m.ldtView.take idx 1 (m.bx * 16)).convert m.bx idx)
      (answer : r.ax = clientSelector m idx) : LdtEffect m .ax0002 r false
  | edited {c r} (which : c = .ax0007 ∨ c = .ax000C) (valid : selectorIsValid m.bx = true)
      (view : r.ldtView = (ldtSlot m.bx).elim m.ldtView (m.ldtView.setBase · (editedBase m c))) :
      LdtEffect m c r false
  | aliased {r} (idx base : Nat) (pos : idx ≠ 0) (first : FirstFit m.ldtInUse 1 LDT_COUNT idx)
      (view : r.ldtView = m.ldtView.take idx 1 base) (answer : r.ax = clientSelector m idx) :
      LdtEffect m .ax000A r false
  | specific {r} (pos : m.bx / 8 ≠ 0) (low : m.bx / 8 < LDT_COUNT)
      (free : m.ldtInUse (m.bx / 8) = false) (view : r.ldtView = m.ldtView.take (m.bx / 8) 1 0) :
      LdtEffect m .ax000D r false
  | block {r} (seg idx : Nat) (a : Machine × Nat × Nat) (asked : m.bx ≠ 0)
      (alloc : mcbAllocate m m.bx = some a) (hseg : a.2.1 = seg) (pos' : seg ≠ 0) (lt : seg < 65536) (pos : idx ≠ 0)
      (first : FirstFit m.ldtInUse 1 LDT_COUNT idx) (slot : ldtFindRun m 1 = idx)
      (view : r.ldtView = (m.ldtView.take idx 1 (seg * 16)).convert seg idx)
      (answer : r.dx = clientSelector m idx) : LdtEffect m .ax0100 r false
  | freedBlock {r} (idx : Nat) (arg : dosBlockSlot m m.dx = some idx)
      (view : r.ldtView = ((m.ldtView.free idx).convert (slotDataSeg m idx) 0).setBase idx 0) :
      LdtEffect m .ax0101 r false
  | resized {r} (view : r.ldtView = m.ldtView) : LdtEffect m .ax0102 r false

theorem ldtView_of_low {m : Machine} {r : Machine} (hmem : AgreesOff firstMegabyte m.mem r.mem)
    (hu : r.ldtInUse = m.ldtInUse) (hc : r.seg2descCache = m.seg2descCache)
    (hp : r.clientCpl = m.clientCpl) : r.ldtView = m.ldtView := by
  simp only [ldtView, slotBase_of_low hmem, hu, hc, hp]

theorem clientSelector_lt {m : Machine} (hcpl : m.clientCpl < 4) {idx : Nat} (h : idx < LDT_COUNT) :
    clientSelector m idx < 65536 := by
  have h₁ : idx * 8 < 2 ^ 16 := by
    simp only [LDT_COUNT] at h
    omega
  have h₂ : m.clientCpl < 2 ^ 16 := by omega
  exact Nat.or_lt_two_pow (Nat.or_lt_two_pow h₁ (by decide)) h₂

theorem clientSelector_slot {m : Machine} (hcpl : m.clientCpl < 4) (idx : Nat) :
    clientSelector m idx / 8 = idx := by
  have h₁ : (idx * 8 ||| 4 ||| m.clientCpl) >>> 3 = idx := by
    rw [Nat.shiftRight_or_distrib, Nat.shiftRight_or_distrib]
    have h₂ : m.clientCpl >>> 3 = 0 := by
      rw [Nat.shiftRight_eq_div_pow]
      omega
    have h₃ : (idx * 8) >>> 3 = idx := by
      rw [Nat.shiftRight_eq_div_pow]
      omega
    rw [h₂, h₃]
    simp
  calc clientSelector m idx / 8 = (idx * 8 ||| 4 ||| m.clientCpl) >>> 3 := by
        rw [Nat.shiftRight_eq_div_pow]
        rfl
    _ = idx := h₁

theorem FirstFit.lt {inUse : Nat → Bool} {count hi r : Nat} (h : FirstFit inUse count hi r) (hr : r ≠ 0)
    (hc : 1 ≤ count) : r < hi := by
  rcases h with ⟨-, hle, -, -⟩ | ⟨h₀, -⟩
  · omega
  · exact absurd h₀ hr

/-- A selector answered in a register. -/
theorem r16_clientSelector {m r : Machine} (hcpl : m.clientCpl < 4) {idx : Nat} (h : idx < LDT_COUNT)
    (g : Reg) : (r.setR16 g (clientSelector m idx)).r16 g = clientSelector m idx := by
  rw [r16_setR16]
  exact Nat.mod_eq_of_lt (clientSelector_lt hcpl h)

variable {eng : Engine} {m r : Machine} {cf : Bool}

theorem int31_0000_effect (hcpl : m.clientCpl < 4) (h : int31_0000 m = some (r, cf)) :
    LdtEffect m .ax0000 r cf := by
  unfold int31_0000 at h
  dsimp only at h
  split_ifs at h with hcount hstart
  · cases h
    exact .refused trivial rfl
  · cases h
    exact .refused trivial rfl
  · cases h
    have hpos : 1 ≤ m.cx := by omega
    have hfirst := ldtFindRun_firstFit m hpos
    refine .run (ldtFindRun m m.cx) hstart hpos hfirst ?_ ?_
    · exact ldtView_installRun m (ldtFindRun m m.cx) 0xFFFF (clientDataAccess m) m.cx
    · exact r16_clientSelector hcpl (hfirst.lt hstart hpos) .eax

theorem int31_0001_effect (h : int31_0001 m = some (r, cf)) : LdtEffect m .ax0001 r cf := by
  unfold int31_0001 at h
  rcases harg : freeArg m with _ | idx
  · rw [harg] at h
    cases h
    exact .refused trivial rfl
  · rw [harg] at h
    cases h
    exact .freed idx harg rfl

theorem int31_0002_effect (hcpl : m.clientCpl < 4) (h : int31_0002 m = some (r, cf)) :
    LdtEffect m .ax0002 r cf := by
  unfold int31_0002 at h
  dsimp only at h
  split_ifs at h with hhit hidx
  · cases h
    exact .cached hhit rfl (r16_setR16 m .eax _)
  · cases h
    exact .refused trivial rfl
  · cases h
    have hfirst := ldtFindRun_firstFit m (show 0 < 1 by decide)
    have hbx : m.bx < 65536 := r16_lt m .ebx
    have hbase : m.bx * 16 % 4294967296 = m.bx * 16 := Nat.mod_eq_of_lt (by omega)
    refine .converted (ldtFindRun m 1) hidx (not_not.mp hhit) hfirst ?_ ?_
    · have hview := ldtView_installLdt m (ldtFindRun m 1) (m.bx * 16) 0xFFFF (clientDataAccess m)
      rw [hbase] at hview
      exact congrArg (LdtView.convert · m.bx (ldtFindRun m 1)) hview
    · exact r16_clientSelector hcpl (hfirst.lt hidx (le_refl 1)) .eax

theorem int31_000A_effect (hcpl : m.clientCpl < 4) (h : int31_000A m = some (r, cf)) :
    LdtEffect m .ax000A r cf := by
  unfold int31_000A at h
  dsimp only at h
  split_ifs at h with hvalid hidx
  · cases h
    exact .refused trivial rfl
  · cases h
    exact .refused trivial rfl
  · cases h
    have hfirst := ldtFindRun_firstFit m (show 0 < 1 by decide)
    refine .aliased (ldtFindRun m 1) _ hidx hfirst (ldtView_installLdt m _ _ _ _) ?_
    exact r16_clientSelector hcpl (hfirst.lt hidx (le_refl 1)) .eax

theorem int31_000D_effect (h : int31_000D m = some (r, cf)) : LdtEffect m .ax000D r cf := by
  unfold int31_000D at h
  dsimp only at h
  split_ifs at h with hti hslot
  · cases h
    exact .refused trivial rfl
  · cases h
    exact .refused trivial rfl
  · cases h
    simp only [not_or, not_le, ldtBit, Bool.not_eq_true] at hslot
    exact .specific hslot.1 hslot.2.1 hslot.2.2 (ldtView_installLdt m _ 0 0 0x92)

theorem mcbAllocate_frame {need : Nat} {a : Machine × Nat × Nat} (h : mcbAllocate m need = some a) :
    a.1.ldtView = m.ldtView ∧ a.2.1 < 65536 := by
  have hlow := mcbAllocate_low h
  unfold mcbAllocate mcbAllocateIn at h
  dsimp only at h
  have hready : (mcbReady m).ldtInUse = m.ldtInUse ∧ (mcbReady m).seg2descCache = m.seg2descCache ∧
      (mcbReady m).clientCpl = m.clientCpl := by
    unfold mcbReady
    split <;> exact ⟨rfl, rfl, rfl⟩
  rcases hfind : mcbFindFree (mcbReady m).mem need with _ | ⟨seg, largest⟩
  · rw [hfind] at h
    cases h
  · rw [hfind] at h
    dsimp only at h
    split_ifs at h
    · cases h
      exact ⟨ldtView_of_low hlow hready.1 hready.2.1 hready.2.2, Nat.zero_lt_succ _⟩
    · cases h
      exact ⟨ldtView_of_low hlow hready.1 hready.2.1 hready.2.2, Nat.mod_lt _ (by decide)⟩

theorem ldtView_mcbFree (m : Machine) (seg : Nat) : (mcbFree m seg).1.ldtView = m.ldtView := by
  refine ldtView_of_low (mcbFree_low m seg) ?_ ?_ ?_ <;> (unfold mcbFree; split <;> rfl)

theorem ldtView_mcbResize (m : Machine) (seg size : Nat) :
    (mcbResize m seg size).1.ldtView = m.ldtView := by
  refine ldtView_of_low (mcbResize_low m seg size) ?_ ?_ ?_ <;> (unfold mcbResize; split <;> rfl)

theorem int31_0100_effect (hcpl : m.clientCpl < 4) (h : int31_0100 m = some (r, cf)) :
    LdtEffect m .ax0100 r cf := by
  unfold int31_0100 at h
  split at h
  · rename_i hbx
    cases h
    exact .refused (.inl hbx) rfl
  · rename_i hbx
    rcases halloc : mcbAllocate m m.bx with _ | ⟨a, seg, largest⟩
    · rw [halloc] at h
      cases h
    · rw [halloc] at h
      obtain ⟨hview, hlt⟩ := mcbAllocate_frame halloc
      have huse : a.ldtInUse = m.ldtInUse := congrArg LdtView.inUse hview
      have hrun : ldtFindRun a 1 = ldtFindRun m 1 := by rw [ldtFindRun, huse, ldtFindRun]
      have hcpl' : a.clientCpl = m.clientCpl := congrArg LdtView.cpl hview
      dsimp only at h hview hlt
      split_ifs at h with hseg hidx
      · cases h
        exact .refused (.inr (.inl ⟨_, halloc, hseg⟩)) hview
      · cases h
        exact .refused (.inr (.inr (hrun.symm.trans hidx))) ((ldtView_mcbFree a seg).trans hview)
      · cases h
        rw [hrun] at hidx
        have hfirst := ldtFindRun_firstFit m (show 0 < 1 by decide)
        have hinstall := ldtView_installLdt a (ldtFindRun a 1) (seg * 16) (lin (a.bx * 16 + 0xFFFFFFFF))
          (clientDataAccess a)
        have hbase : seg * 16 % 4294967296 = seg * 16 := Nat.mod_eq_of_lt (by omega)
        rw [hbase, hview] at hinstall
        refine .block seg (ldtFindRun m 1) _ hbx halloc rfl hseg hlt hidx hfirst rfl ?_ ?_
        · have hconv := congrArg (LdtView.convert · seg (ldtFindRun a 1)) hinstall
          exact hconv.trans (by rw [hrun])
        · have hsel : clientSelector a (ldtFindRun a 1) = clientSelector m (ldtFindRun m 1) := by
            rw [clientSelector, hrun, hcpl', clientSelector]
          show (Machine.setR16 _ .edx (clientSelector a (ldtFindRun a 1))).r16 .edx = _
          rw [hsel]
          exact r16_clientSelector hcpl (hfirst.lt hidx (le_refl 1)) .edx

theorem int31_0101_effect (h : int31_0101 m = some (r, cf)) : LdtEffect m .ax0101 r cf := by
  unfold int31_0101 at h
  rcases harg : dosBlockSlot m m.dx with _ | idx
  · rw [harg] at h
    cases h
    exact .refused harg rfl
  · rw [harg] at h
    cases h
    refine .freedBlock idx harg ?_
    have hview := ldtView_mcbFree m (slotDataSeg m idx)
    have hbase := slotBase_writeLdtDescriptor (mcbFree m (slotDataSeg m idx)).1.mem idx 0 0 0 false
    rw [show slotBase (mcbFree m (slotDataSeg m idx)).1.mem = slotBase m.mem from
      congrArg LdtView.base hview] at hbase
    have huse : (mcbFree m (slotDataSeg m idx)).1.ldtInUse = m.ldtInUse := congrArg LdtView.inUse hview
    have hconv : (mcbFree m (slotDataSeg m idx)).1.seg2descCache = m.seg2descCache :=
      congrArg LdtView.conv hview
    have hcpl : (mcbFree m (slotDataSeg m idx)).1.clientCpl = m.clientCpl := congrArg LdtView.cpl hview
    simp only [ldtView, ldtSet, LdtView.free, LdtView.convert, LdtView.setBase, hbase, huse, hconv, hcpl]

theorem int31_0102_effect (h : int31_0102 m = some (r, cf)) : LdtEffect m .ax0102 r cf := by
  unfold int31_0102 at h
  rcases harg : dosBlockSlot m m.bx with _ | idx
  · rw [harg] at h
    cases h
    exact .refused trivial rfl
  · rw [harg] at h
    have hview := ldtView_mcbResize m (slotDataSeg m idx) m.dx
    dsimp only at h
    split_ifs at h
    · cases h
      exact .refused trivial hview
    · cases h
      refine .resized (Eq.trans ?_ hview)
      -- the limit bytes only: 0, 1 and 6
      have hne : ∀ (i : Nat) (k l : Nat), k < 8 → l < 8 → k ≠ l →
          LDT_BASE + i * 8 + k ≠ LDT_BASE + idx * 8 + l := fun i k l _ _ _ => by omega
      have hb : ∀ (mem : Mem) (v₀ v₁ v₆ i k : Nat), k < 8 → k ≠ 0 → k ≠ 1 → k ≠ 6 →
          readb (writeb (writeb (writeb mem (LDT_BASE + idx * 8) v₀) (LDT_BASE + idx * 8 + 1) v₁)
            (LDT_BASE + idx * 8 + 6) v₆) (LDT_BASE + i * 8 + k) = readb mem (LDT_BASE + i * 8 + k) := by
        intro mem v₀ v₁ v₆ i k hk h₀ h₁ h₆
        rw [readb_writeb_of_ne (hne i k 6 hk (by decide) h₆),
          readb_writeb_of_ne (hne i k 1 hk (by decide) h₁)]
        exact readb_writeb_of_ne (hne i k 0 hk (by decide) h₀)
      have hbase : ∀ (mem : Mem) (v₀ v₁ v₆ : Nat),
          slotBase (writeb (writeb (writeb mem (LDT_BASE + idx * 8) v₀) (LDT_BASE + idx * 8 + 1) v₁)
            (LDT_BASE + idx * 8 + 6) v₆) = slotBase mem := by
        intro mem v₀ v₁ v₆
        funext i
        simp only [slotBase, descBase, hb mem v₀ v₁ v₆ i 2 (by decide) (by decide) (by decide) (by decide),
          hb mem v₀ v₁ v₆ i 3 (by decide) (by decide) (by decide) (by decide),
          hb mem v₀ v₁ v₆ i 4 (by decide) (by decide) (by decide) (by decide),
          hb mem v₀ v₁ v₆ i 7 (by decide) (by decide) (by decide) (by decide)]
      simp only [ldtView, hbase]

theorem descAddr_ldt {sel : Nat} (h : sel / 4 % 2 = 1) : descAddr sel = LDT_BASE + sel / 8 * 8 := by
  rw [descAddr, selectorTableBase, if_pos h]

/-- A valid GDT selector names eight bytes below the LDT. -/
theorem descAddr_gdt {sel : Nat} (h : sel / 4 % 2 ≠ 1) (hv : selectorIsValid sel = true) :
    descAddr sel + 8 ≤ LDT_BASE := by
  unfold selectorIsValid at hv
  dsimp only at hv
  rw [if_neg h] at hv
  have hle : sel / 8 * 8 + 7 ≤ GDT_LIMIT := by simpa using hv
  rw [descAddr, selectorTableBase, if_neg h]
  simp only [GDT_LIMIT, GDT_BASE, LDT_BASE] at hle ⊢
  omega

/-- An edit of the eight bytes at BX's descriptor. -/
theorem editDesc_effect {f : Mem → Nat → Mem} {c : LdtCall} (hc : c = .ax0007 ∨ c = .ax000C)
    (hoff : AgreesOff (Set.Ico (bxDesc m) (bxDesc m + 8)) m.mem (f m.mem (bxDesc m)))
    (hbase : descBase (f m.mem (bxDesc m)) (bxDesc m) = editedBase m c)
    (h : editDesc eng m f = some (r, cf)) : LdtEffect m c r cf := by
  unfold editDesc at h
  split at h
  · rename_i hv
    cases h
    rcases hc with rfl | rfl <;> exact .refused (by simpa [RefusedFor] using hv) rfl
  · rename_i hv
    simp only [Bool.not_eq_true', Bool.not_eq_false] at hv
    cases h
    have hreload := sameHost_reloadLoadedSelector eng { m with mem := f m.mem (bxDesc m) } m.bx
    refine .edited hc hv ?_
    rw [hreload]
    by_cases hti : m.bx / 4 % 2 = 1
    · have haddr : bxDesc m = LDT_BASE + m.bx / 8 * 8 := descAddr_ldt hti
      rw [haddr] at hoff hbase
      simp only [ldtSlot, if_pos hti, Option.elim_some, ldtView, LdtView.setBase]
      rw [← hbase, haddr, slotBase_of_slot hoff]
      rfl
    · have haddr : bxDesc m + 8 ≤ LDT_BASE := descAddr_gdt hti hv
      have hsame : slotBase (f m.mem (bxDesc m)) = slotBase m.mem := by
        funext i
        have hb : ∀ k, readb (f m.mem (bxDesc m)) (LDT_BASE + i * 8 + k) =
            readb m.mem (LDT_BASE + i * 8 + k) := by
          intro k
          apply hoff.readb
          simp only [Set.mem_Ico]
          omega
        simp only [slotBase, descBase, hb]
      simp only [ldtSlot, if_neg hti, Option.elim_none, ldtView, hsame]

/-- The base bytes of the descriptor at `p`, as AX=0007 writes them. -/
theorem writeBase_off (mem : Mem) (p base : Nat) : AgreesOff (Set.Ico p (p + 8)) mem
    (writeb (writeb (writeb (writeb mem (p + 2) base) (p + 3) (base / 256)) (p + 4) (base / 65536))
      (p + 7) (base / 16777216)) := by
  intro x hx
  simp only [Set.mem_Ico, not_and, not_lt] at hx
  rw [writeb_of_ne (by omega), writeb_of_ne (by omega), writeb_of_ne (by omega),
    writeb_of_ne (by omega)]

theorem descBase_writeBase (mem : Mem) (p base : Nat) : descBase
    (writeb (writeb (writeb (writeb mem (p + 2) base) (p + 3) (base / 256)) (p + 4) (base / 65536))
      (p + 7) (base / 16777216)) p = base % 4294967296 := by
  have hne : ∀ k l : Nat, k ≠ l → p + k ≠ p + l := fun k l _ => by omega
  simp only [descBase, readb_writeb, readb_writeb_of_ne (hne 2 7 (by decide)),
    readb_writeb_of_ne (hne 2 4 (by decide)), readb_writeb_of_ne (hne 2 3 (by decide)),
    readb_writeb_of_ne (hne 3 7 (by decide)), readb_writeb_of_ne (hne 3 4 (by decide)),
    readb_writeb_of_ne (hne 4 7 (by decide))]
  omega

theorem int31_0007_effect (h : int31_0007 eng m = some (r, cf)) : LdtEffect m .ax0007 r cf := by
  have h₁ : m.cx < 65536 := r16_lt m .ecx
  have h₂ : m.dx < 65536 := r16_lt m .edx
  unfold int31_0007 at h
  refine editDesc_effect (.inl rfl) (writeBase_off m.mem _ _) ?_ h
  rw [descBase_writeBase]
  exact Nat.mod_eq_of_lt (by omega)

theorem copyDesc_off (mem : Mem) {dst : Nat} (src : Nat) (h : dst + 8 ≤ 4294967296) :
    AgreesOff (Set.Ico dst (dst + 8)) mem (copyDesc mem dst src) := by
  have hone : ∀ (xs : List Nat), (∀ i ∈ xs, i < 8) → ∀ mem, AgreesOff (Set.Ico dst (dst + 8)) mem
      (xs.foldl (fun mem i => writeb mem (lin (dst + i)) (readb mem (lin (src + i)))) mem) := by
    intro xs
    induction xs with
    | nil => exact fun _ mem => AgreesOff.refl _ mem
    | cons i xs ih =>
      intro hxs mem
      have hi : i < 8 := hxs i (by simp)
      refine AgreesOff.trans ?_ (ih (fun j hj => hxs j (by simp [hj])) _)
      refine (writeb_off mem (lin (dst + i)) _).mono fun x hx => ?_
      rw [lin_of_lt (by omega)] at hx
      simp only [Set.mem_Ico] at hx ⊢
      omega
  exact hone (List.range 8) (fun i hi => List.mem_range.mp hi) mem

theorem descAddr_lt {sel : Nat} (h : sel < 65536) : descAddr sel + 8 ≤ 4294967296 := by
  unfold descAddr selectorTableBase
  split <;> simp only [LDT_BASE, GDT_BASE] <;> omega

theorem int31_000C_effect (h : int31_000C eng m = some (r, cf)) : LdtEffect m .ax000C r cf := by
  have hlt : bxDesc m + 8 ≤ 4294967296 := descAddr_lt (r16_lt m .ebx)
  unfold int31_000C at h
  refine editDesc_effect (f := fun mem p => copyDesc mem p (esBuffer m .edi)) (.inr rfl) ?_ ?_ h
  · exact copyDesc_off m.mem (esBuffer m .edi) hlt
  · rfl

/-- One lemma for the whole family: an answered call has one of the effects. -/
theorem serve_effect {c : LdtCall} (hcpl : m.clientCpl < 4) (h : c.serve eng m = some (r, cf)) :
    LdtEffect m c r cf := by
  cases c with
  | ax0000 => exact int31_0000_effect hcpl h
  | ax0001 => exact int31_0001_effect h
  | ax0002 => exact int31_0002_effect hcpl h
  | ax0007 => exact int31_0007_effect h
  | ax000A => exact int31_000A_effect hcpl h
  | ax000C => exact int31_000C_effect h
  | ax000D => exact int31_000D_effect h
  | ax0100 => exact int31_0100_effect hcpl h
  | ax0101 => exact int31_0101_effect h
  | ax0102 => exact int31_0102_effect h

/-! ### The table between calls -/

/-- A remembered conversion has a taken slot with the base of its segment. -/
structure LdtView.Ok (v : LdtView) : Prop where
  cpl : v.cpl < 4
  seg : ∀ s, v.conv s ≠ 0 → s < 65536
  slot : ∀ s, v.conv s < LDT_COUNT
  taken : ∀ s, v.conv s ≠ 0 → v.inUse (v.conv s) = true
  base : ∀ s, v.conv s ≠ 0 → v.base (v.conv s) = s * 16

namespace LdtView

variable {v : LdtView}

theorem take_inUse_of_taken {start count i : Nat} (base : Nat) (h : v.inUse i = true) :
    (v.take start count base).inUse i = true := by
  simp only [take, h, Bool.true_or]

/-- A taken slot is not among those just taken. -/
theorem take_base_of_taken {start count base i : Nat} (hfree : FreeRun v.inUse start count)
    (h : v.inUse i = true) : (v.take start count base).base i = v.base i := by
  have hout : ¬ (start ≤ i ∧ i < start + count) := by
    rintro ⟨h₁, h₂⟩
    have := hfree i h₁ h₂
    rw [h] at this
    cases this
  simp only [take, if_neg hout]

theorem Ok.take (h : v.Ok) {start count : Nat} (base : Nat) (hfree : FreeRun v.inUse start count) :
    (v.take start count base).Ok where
  cpl := h.cpl
  seg := h.seg
  slot := h.slot
  taken := fun s hs => take_inUse_of_taken base (h.taken s hs)
  base := fun s hs => (take_base_of_taken hfree (h.taken s hs)).trans (h.base s hs)

theorem Ok.convert (h : v.Ok) {seg idx : Nat} (hseg : seg < 65536) (hidx : idx < LDT_COUNT)
    (htaken : v.inUse idx = true) (hbase : v.base idx = seg * 16) : (v.convert seg idx).Ok := by
  refine ⟨h.cpl, ?_, ?_, ?_, ?_⟩ <;> intro s <;> by_cases hs : s = seg
  · intro _
    rw [hs]
    exact hseg
  · simp only [LdtView.convert, Function.update_of_ne hs]
    exact h.seg s
  · simp only [hs, LdtView.convert, Function.update_self]
    exact hidx
  · simp only [LdtView.convert, Function.update_of_ne hs]
    exact h.slot s
  · intro _
    simp only [hs, LdtView.convert, Function.update_self]
    exact htaken
  · simp only [LdtView.convert, Function.update_of_ne hs]
    exact h.taken s
  · intro _
    simp only [hs, LdtView.convert, Function.update_self]
    exact hbase
  · simp only [LdtView.convert, Function.update_of_ne hs]
    exact h.base s

/-- A slot may be given back once no segment is remembered for it. -/
theorem Ok.free (h : v.Ok) {idx : Nat} (hnone : ∀ s, v.conv s ≠ 0 → v.conv s ≠ idx) :
    (v.free idx).Ok where
  cpl := h.cpl
  seg := h.seg
  slot := h.slot
  taken := fun s hs => by
    simp only [LdtView.free, Function.update_of_ne (hnone s hs)]
    exact h.taken s hs
  base := h.base

/-- Conversions may be forgotten. -/
theorem Ok.fewer (h : v.Ok) {conv : Nat → Nat} (hconv : ∀ s, conv s = 0 ∨ conv s = v.conv s) :
    ({ v with conv := conv } : LdtView).Ok := by
  have hs : ∀ s, conv s ≠ 0 → conv s = v.conv s := fun s hs => (hconv s).resolve_left hs
  refine ⟨h.cpl, fun s hne => h.seg s (hs s hne ▸ hne), fun s => ?_, fun s hne => ?_, fun s hne => ?_⟩
  · rcases hconv s with h₀ | h₀
    · dsimp only
      rw [h₀]
      decide
    · dsimp only
      rw [h₀]
      exact h.slot s
  · dsimp only
    rw [hs s hne]
    exact h.taken s (hs s hne ▸ hne)
  · dsimp only
    rw [hs s hne]
    exact h.base s (hs s hne ▸ hne)

/-- The base of a slot may change to that of the segments remembered for it. -/
theorem Ok.setBase (h : v.Ok) {idx base : Nat}
    (hbase : ∀ s, v.conv s ≠ 0 → v.conv s = idx → base = s * 16) : (v.setBase idx base).Ok where
  cpl := h.cpl
  seg := h.seg
  slot := h.slot
  taken := h.taken
  base := fun s hs => by
    by_cases hi : v.conv s = idx
    · simp only [LdtView.setBase, hi, Function.update_self]
      exact hbase s hs hi
    · simp only [LdtView.setBase, Function.update_of_ne hi]
      exact h.base s hs

/-- No slot is remembered for two segments. -/
theorem Ok.inj (h : v.Ok) {s t : Nat} (hs : v.conv s ≠ 0) (heq : v.conv s = v.conv t) : s = t := by
  have h₁ := h.base s hs
  have h₂ := h.base t (heq ▸ hs)
  rw [heq, h₂] at h₁
  omega

end LdtView

theorem FirstFit.free {inUse : Nat → Bool} {count hi r : Nat} (h : FirstFit inUse count hi r)
    (hr : r ≠ 0) : FreeRun inUse r count := by
  rcases h with ⟨-, -, hfree, -⟩ | ⟨h₀, -⟩
  · exact hfree
  · exact absurd h₀ hr

/-- The call leaves the base of every converted slot at that of its segment. -/
def KeepsBases (m : Machine) (c : LdtCall) : Prop :=
  c = .ax0007 ∨ c = .ax000C →
    ∀ s, m.seg2descCache s ≠ 0 → ldtSlot m.bx = some (m.seg2descCache s) → editedBase m c = s * 16

theorem dosBlockSlot_eq {sel idx : Nat} (h : dosBlockSlot m sel = some idx) :
    m.ldtInUse idx = true ∧ idx ≠ 0 ∧ idx < LDT_COUNT := by
  unfold dosBlockSlot at h
  split at h
  · cases h
  · rename_i hsel
    split at h
    · rename_i hbit
      cases h
      simp only [not_or, Bool.not_eq_true', Bool.not_eq_false] at hsel
      have hv := hsel.2
      unfold selectorIsValid at hv
      dsimp only at hv
      rw [if_pos (by omega)] at hv
      simp only [Bool.not_eq_true', Bool.or_eq_false_iff, decide_eq_false_iff_not, not_le] at hv
      exact ⟨hbit, hv.1, hv.2⟩
    · cases h

theorem freeArg_eq {idx : Nat} (h : freeArg m = some idx) : m.ldtInUse idx = true ∧ idx ≠ 0 ∧
    idx < LDT_COUNT := dosBlockSlot_eq h

/-- One call keeps the table. -/
theorem LdtEffect.ok {c : LdtCall} (he : LdtEffect m c r cf) (h : m.ldtView.Ok) (hk : KeepsBases m c) :
    r.ldtView.Ok := by
  have hone : ∀ {idx base : Nat}, FirstFit m.ldtInUse 1 LDT_COUNT idx → idx ≠ 0 → ∀ seg < 65536,
      base = seg * 16 → ((m.ldtView.take idx 1 base).convert seg idx).Ok := by
    intro idx base hfirst hpos seg hseg hbase
    refine (h.take base (hfirst.free hpos)).convert hseg (hfirst.lt hpos (le_refl 1)) ?_ ?_
    · simp [LdtView.take]
    · simp [LdtView.take, hbase]
  cases he with
  | refused _ view | cached _ view _ | resized view =>
    rw [view]
    exact h
  | run start pos _ first view _ =>
    rw [view]
    exact h.take 0 (first.free pos)
  | freed idx arg view =>
    rw [view]
    have hforget : (m.ldtView.forget idx).Ok := h.fewer fun s => by
      split
      · exact .inl rfl
      · exact .inr rfl
    refine hforget.free fun s hs heq => ?_
    simp only [LdtView.forget] at heq hs
    by_cases hi : m.ldtView.conv s = idx
    · exact hs (if_pos hi)
    · exact hi ((if_neg hi).symm.trans heq)
  | converted idx pos _ first view _ =>
    rw [view]
    exact hone first pos m.bx (r16_lt m .ebx) rfl
  | edited which _ view =>
    rw [view]
    rcases hslot : ldtSlot m.bx with _ | idx
    · exact h
    · exact h.setBase fun s hs hi => hk which s hs (by rw [hslot]; exact congrArg some hi.symm)
  | aliased idx base pos first view _ =>
    rw [view]
    exact h.take base (first.free pos)
  | specific pos low free view =>
    rw [view]
    refine h.take 0 fun i h₁ h₂ => ?_
    rw [show i = m.bx / 8 by omega]
    exact free
  | block seg idx a _ _ _ _ lt pos first _ view _ =>
    rw [view]
    exact hone first pos seg lt rfl
  | freedBlock idx arg view =>
    rw [view]
    have hconv : ∀ s, (m.ldtView.convert (slotDataSeg m idx) 0).conv s =
        if s = slotDataSeg m idx then 0 else m.ldtView.conv s := fun s => Function.update_apply _ _ _ _
    have hforget : (m.ldtView.convert (slotDataSeg m idx) 0).Ok := h.fewer fun s => by
      rw [Function.update_apply]
      split
      · exact .inl rfl
      · exact .inr rfl
    -- a segment remembered for the slot is the one AX=0101 forgets
    have hnone : ∀ s, (m.ldtView.convert (slotDataSeg m idx) 0).conv s ≠ 0 →
        (m.ldtView.convert (slotDataSeg m idx) 0).conv s ≠ idx := by
      intro s hs heq
      rw [hconv] at hs heq
      split_ifs at hs heq with hseg
      · exact hs rfl
      · have hbase := h.base s hs
        have hlt := h.seg s hs
        rw [heq] at hbase
        have hseg' : slotDataSeg m idx = s := by
          show m.ldtView.base idx / 16 % 65536 = s
          rw [hbase]
          omega
        exact hseg hseg'.symm
    exact (hforget.free hnone).setBase fun s hs hi => absurd hi (hnone s hs)

/-! ### Runs -/

inductive LdtEvent where
  | between
  | call (c : LdtCall)

/-- A call is answered, or something else happens that leaves the table. -/
def ldtStep (eng : Engine) (m : Machine) : LdtEvent → Machine → Prop
  | .between, r => r.ldtView = m.ldtView
  | .call c, r => ∃ cf, c.serve eng m = some (r, cf)

/-- The call gives slot `i` back. -/
def FreesSlot (m : Machine) (c : LdtCall) (i : Nat) : Prop :=
  (c = .ax0001 ∧ freeArg m = some i) ∨ (c = .ax0101 ∧ dosBlockSlot m m.dx = some i)

/-- A slot becomes free only by a call that gives it back. -/
theorem LdtEffect.inUse {c : LdtCall} (he : LdtEffect m c r cf) {i : Nat} (hi : m.ldtInUse i = true)
    (hf : ¬ FreesSlot m c i) : r.ldtInUse i = true := by
  have huse : ∀ {v : LdtView}, r.ldtView = v → v.inUse i = true → r.ldtInUse i = true :=
    fun h hv => (congrArg (LdtView.inUse · i) h).trans hv
  have hne : ∀ {idx : Nat}, i ≠ idx → Function.update m.ldtInUse idx false i = true :=
    fun h => (Function.update_of_ne h _ _).trans hi
  cases he with
  | refused _ view | cached _ view _ | resized view => exact huse view hi
  | run start pos _ first view _ => exact huse view (LdtView.take_inUse_of_taken _ hi)
  | converted idx pos _ first view _ =>
    exact huse view (LdtView.take_inUse_of_taken (v := m.ldtView) (m.bx * 16) hi)
  | aliased idx base pos first view _ => exact huse view (LdtView.take_inUse_of_taken _ hi)
  | specific pos low free view => exact huse view (LdtView.take_inUse_of_taken _ hi)
  | block seg idx a _ _ _ _ lt pos first _ view _ =>
    exact huse view (LdtView.take_inUse_of_taken (v := m.ldtView) (seg * 16) hi)
  | edited which _ view =>
    rcases hslot : ldtSlot m.bx with _ | idx
    · rw [hslot] at view
      exact huse view hi
    · rw [hslot] at view
      exact huse view hi
  | freed idx arg view =>
    exact huse view (hne fun h => hf (.inl ⟨rfl, h ▸ arg⟩))
  | freedBlock idx arg view =>
    exact huse view (hne fun h => hf (.inr ⟨rfl, h ▸ arg⟩))

theorem LdtEffect.cpl {c : LdtCall} (he : LdtEffect m c r cf) : r.clientCpl = m.clientCpl := by
  have hcpl : ∀ {v : LdtView}, r.ldtView = v → v.cpl = m.clientCpl → r.clientCpl = m.clientCpl :=
    fun h hv => (congrArg LdtView.cpl h).trans hv
  cases he with
  | edited which _ view =>
    rcases hslot : ldtSlot m.bx with _ | idx
    · rw [hslot] at view
      exact hcpl view rfl
    · rw [hslot] at view
      exact hcpl view rfl
  | _ => exact hcpl (by assumption) rfl

/-- Between a state where a slot is taken and one where it is free, some call gave it back. -/
theorem freed_between {es : List LdtEvent} (hrun : Run (ldtStep eng) m es r) {i : Nat}
    (hcpl : m.clientCpl < 4) (hi : m.ldtInUse i = true) (hfree : r.ldtInUse i = false) :
    ∃ es₁ c es₂ q, es = es₁ ++ .call c :: es₂ ∧ Run (ldtStep eng) m es₁ q ∧ FreesSlot q c i := by
  induction hrun with
  | nil s =>
    rw [hi] at hfree
    cases hfree
  | @cons s t u e es hstep rest ih =>
    have hkept : ∀ {es₁ es₂ : List LdtEvent} {c : LdtCall} {q : Machine},
        es = es₁ ++ .call c :: es₂ → Run (ldtStep eng) t es₁ q → FreesSlot q c i →
        ∃ es₁ c es₂ q, e :: es = es₁ ++ .call c :: es₂ ∧ Run (ldtStep eng) s es₁ q ∧
          FreesSlot q c i := by
      intro es₁ es₂ c q hes hr hf
      exact ⟨e :: es₁, c, es₂, q, by rw [hes, List.cons_append], .cons hstep hr, hf⟩
    cases e with
    | between =>
      have huse : t.ldtInUse = s.ldtInUse := congrArg LdtView.inUse hstep
      have hcpl' : t.clientCpl = s.clientCpl := congrArg LdtView.cpl hstep
      obtain ⟨es₁, c, es₂, q, hes, hr, hf⟩ := ih (hcpl' ▸ hcpl) (huse ▸ hi) hfree
      exact hkept hes hr hf
    | call c =>
      by_cases hf : FreesSlot s c i
      · exact ⟨[], c, es, s, rfl, .nil s, hf⟩
      · obtain ⟨cf, hserve⟩ := hstep
        have he := serve_effect hcpl hserve
        obtain ⟨es₁, c', es₂, q, hes, hr, hf'⟩ := ih (he.cpl ▸ hcpl) (he.inUse hi hf) hfree
        exact hkept hes hr hf'

/-! ### The table after an entry -/

/-- No segment is remembered, and the client's ring is a privilege level. -/
structure NoConversions (m : Machine) : Prop where
  conv : ∀ s, m.seg2descCache s = 0
  cpl : m.clientCpl < 4

theorem NoConversions.ok (h : NoConversions m) : m.ldtView.Ok where
  cpl := h.cpl
  seg := fun s hs => absurd (h.conv s) hs
  slot := fun s => by
    rw [show m.ldtView.conv s = 0 from h.conv s]
    decide
  taken := fun s hs => absurd (h.conv s) hs
  base := fun s hs => absurd (h.conv s) hs

/-- An empty table of a client at ring `cpl`: slot 0 taken, nothing remembered. -/
structure LdtFresh (cpl : Nat) (m : Machine) : Prop where
  conv : ∀ s, m.seg2descCache s = 0
  ring : m.clientCpl = cpl
  reserved : m.ldtInUse 0 = true

theorem LdtFresh.noConversions {cpl : Nat} (h : LdtFresh cpl m) (hcpl : cpl < 4) : NoConversions m :=
  ⟨h.conv, h.ring ▸ hcpl⟩

theorem LdtFresh.globals {cpl : Nat} (h : LdtFresh cpl m) (hs : SameGlobals m r) : LdtFresh cpl r := by
  rw [hs.eq]
  exact ⟨h.conv, h.ring, h.reserved⟩

theorem ldtFresh_resetLdt (m : Machine) : LdtFresh m.clientCpl (resetLdt m) :=
  ⟨fun _ => rfl, rfl, rfl⟩

theorem LdtFresh.installStarterSet {cpl : Nat} (h : LdtFresh cpl m)
    (set : List (Nat × Nat × Nat × Bool)) : LdtFresh cpl (installStarterSet m set) := by
  unfold Dosiz.installStarterSet
  induction set generalizing m with
  | nil => exact h
  | cons d set ih =>
    refine ih ⟨h.conv, h.ring, ?_⟩
    by_cases hd : 0 = d.1
    · exact (congrArg _ hd).trans (Function.update_self _ _ _)
    · exact (Function.update_of_ne hd _ _).trans h.reserved

theorem ldtFresh_enterRing3 (m : Machine) (cs ip : Nat) : LdtFresh 3 (enterRing3 eng m cs ip) := by
  refine LdtFresh.globals ?_ (sameGlobals_enterRing3 eng m cs ip)
  refine LdtFresh.globals ?_ (sameGlobals_setMem _ _)
  refine LdtFresh.installStarterSet ?_ _
  exact ldtFresh_resetLdt (setClientCpl _ 3)

theorem ldtFresh_enterRing0 {cpl : Nat} (h : LdtFresh cpl m) : LdtFresh cpl (enterRing0 eng m) :=
  h.globals (sameGlobals_enterRing0 eng m)

theorem ldtFresh_entryTables (m : Machine) (bits32 : Bool) (cs : Nat) :
    LdtFresh m.clientCpl (entryTables m bits32 cs) := by
  have hsetup := sameGlobals_pmSetupGdtAndIdt m bits32 cs (m.segVal .ds) (m.segVal .ss) (m.segVal .es)
  have hreset := ldtFresh_resetLdt (pmSetupGdtAndIdt m bits32 cs (m.segVal .ds) (m.segVal .ss)
    (m.segVal .es))
  rw [show (pmSetupGdtAndIdt m bits32 cs _ _ _).clientCpl = m.clientCpl by rw [hsetup.eq]] at hreset
  exact hreset.globals (sameGlobals_catchAllGates _ _)

/-- The entry empties the table. -/
theorem ldtFresh_entry (eng : Engine) (m : Machine) :
    LdtFresh (if goesRing3 m then 3 else m.clientCpl) (dosizDpmiEntry eng m) := by
  rw [dosizDpmiEntry_eq]
  split
  · exact ldtFresh_enterRing3 _ _ _
  · exact ldtFresh_enterRing0 (ldtFresh_entryTables _ _ _)

theorem entry_cpl {m : Machine} (h : m.clientCpl < 4) :
    (if goesRing3 m then 3 else m.clientCpl) < 4 := by
  split
  · decide
  · exact h

/-! ### Slots are handed out once -/

/-- The slots an answered call hands out, by the selectors it answers or was given. -/
def handsOut (c : LdtCall) (m r : Machine) (cf : Bool) : Set Nat :=
  if cf then ∅
  else
    match c with
    | .ax0000 => Set.Ico (r.ax / 8) (r.ax / 8 + m.cx)
    | .ax0002 => if m.seg2descCache m.bx = 0 then {r.ax / 8} else ∅
    | .ax000A => {r.ax / 8}
    | .ax000D => {m.bx / 8}
    | .ax0100 => {r.dx / 8}
    | _ => ∅

/-- A run of `count` free slots lies in the table. -/
def HasRun (m : Machine) (count : Nat) : Prop :=
  ∃ s, 1 ≤ s ∧ s + count ≤ LDT_COUNT ∧ FreeRun m.ldtInUse s count

/-- The answer of AX=0000 with CX in range: it fails exactly where there is no run of CX free
    slots, and hands out the lowest. -/
structure RunAnswer (m r : Machine) (cf : Bool) : Prop where
  fails : (cf = true ∧ r.ax = 0x8011) ↔ ¬ HasRun m m.cx
  succeeds : cf = false ↔ HasRun m m.cx
  lowest : cf = false → ∀ s, 1 ≤ s → s < r.ax / 8 → ¬ FreeRun m.ldtInUse s m.cx

/-- The slots of `m` are in order: slot 0 is reserved, what a call hands out was free, AX=0000 is
    first-fit, a remembered conversion is answered with its own taken slot, and a slot handed
    out is given back before it is handed out again. -/
structure SlotsSound (eng : Engine) (m : Machine) : Prop where
  reserved : m.ldtInUse 0 = true
  fresh : ∀ c r cf, c.serve eng m = some (r, cf) → ∀ i ∈ handsOut c m r cf,
    1 ≤ i ∧ i < LDT_COUNT ∧ m.ldtInUse i = false ∧ r.ldtInUse i = true
  refused : m.cx = 0 ∨ LDT_COUNT ≤ m.cx → int31_0000 m = some (failWith m 0x8021)
  run : 1 ≤ m.cx → m.cx < LDT_COUNT → ∃ r cf, int31_0000 m = some (r, cf) ∧ RunAnswer m r cf
  cached : m.seg2descCache m.bx ≠ 0 → ∃ r, int31_0002 m = some (r, false) ∧
    r.ax / 8 = m.seg2descCache m.bx ∧ r.ldtInUse = m.ldtInUse ∧ m.ldtInUse (r.ax / 8) = true ∧
    slotBase m.mem (r.ax / 8) = m.bx * 16
  once : ∀ c r cf i, c.serve eng m = some (r, cf) → i ∈ handsOut c m r cf →
    ∀ es m', Run (ldtStep eng) r es m' → ∀ c' r' cf', c'.serve eng m' = some (r', cf') →
      i ∈ handsOut c' m' r' cf' →
      ∃ es₁ c₁ es₂ q, es = es₁ ++ .call c₁ :: es₂ ∧ Run (ldtStep eng) r es₁ q ∧ FreesSlot q c₁ i

/-- What a call hands out was free. -/
theorem LdtEffect.handsOut_free {c : LdtCall} (he : LdtEffect m c r cf) (hcpl : m.clientCpl < 4)
    {i : Nat} (hi : i ∈ handsOut c m r cf) :
    1 ≤ i ∧ i < LDT_COUNT ∧ m.ldtInUse i = false ∧ r.ldtInUse i = true := by
  have hone : ∀ {idx : Nat} {v : LdtView}, FirstFit m.ldtInUse 1 LDT_COUNT idx → idx ≠ 0 →
      r.ldtView = v → v.inUse = (m.ldtView.take idx 1 0).inUse →
      1 ≤ idx ∧ idx < LDT_COUNT ∧ m.ldtInUse idx = false ∧ r.ldtInUse idx = true := by
    intro idx v hfirst hpos hview huse
    refine ⟨by omega, hfirst.lt hpos (le_refl 1), hfirst.free hpos idx (le_refl idx) (by omega), ?_⟩
    rw [show r.ldtInUse = v.inUse from congrArg LdtView.inUse hview, huse]
    simp [LdtView.take]
  cases he with
  | refused _ view => exact absurd hi (Set.notMem_empty i)
  | cached hit view answer =>
    simp only [handsOut, Bool.false_eq_true, if_false, if_neg hit] at hi
    exact absurd hi (Set.notMem_empty i)
  | resized view | freed idx arg view | freedBlock idx arg view =>
    exact absurd hi (Set.notMem_empty i)
  | edited which valid view =>
    rcases which with rfl | rfl <;> exact absurd hi (Set.notMem_empty i)
  | run start pos count first view answer =>
    simp only [handsOut, Bool.false_eq_true, if_false, answer, clientSelector_slot hcpl,
      Set.mem_Ico] at hi
    have hle : start + m.cx ≤ LDT_COUNT := by
      rcases first with ⟨-, hle, -, -⟩ | ⟨h₀, -⟩
      · exact hle
      · exact absurd h₀ pos
    refine ⟨by omega, by omega, first.free pos i hi.1 hi.2, ?_⟩
    rw [show r.ldtInUse = _ from congrArg LdtView.inUse view]
    simp only [LdtView.take, hi.1, hi.2, decide_true, Bool.and_self, Bool.or_true]
  | converted idx pos miss first view answer =>
    simp only [handsOut, Bool.false_eq_true, if_false, if_pos miss, answer, clientSelector_slot hcpl,
      Set.mem_singleton_iff] at hi
    rw [hi]
    exact hone first pos view rfl
  | aliased idx base pos first view answer =>
    simp only [handsOut, Bool.false_eq_true, if_false, answer, clientSelector_slot hcpl,
      Set.mem_singleton_iff] at hi
    rw [hi]
    exact hone first pos view rfl
  | specific pos low free view =>
    simp only [handsOut, Bool.false_eq_true, if_false, Set.mem_singleton_iff] at hi
    rw [hi]
    refine ⟨by omega, low, free, ?_⟩
    rw [show r.ldtInUse = _ from congrArg LdtView.inUse view]
    simp [LdtView.take]
  | block seg idx a _ _ _ _ lt pos first _ view answer =>
    simp only [handsOut, Bool.false_eq_true, if_false, answer, clientSelector_slot hcpl,
      Set.mem_singleton_iff] at hi
    rw [hi]
    exact hone first pos view rfl

theorem int31_0000_answer (hcpl : m.clientCpl < 4) (h₁ : 1 ≤ m.cx) (h₂ : m.cx < LDT_COUNT) :
    ∃ r cf, int31_0000 m = some (r, cf) ∧ RunAnswer m r cf := by
  have hfirst := ldtFindRun_firstFit m h₁
  have hcount : ¬ (m.cx = 0 ∨ LDT_COUNT ≤ m.cx) := by omega
  by_cases hstart : ldtFindRun m m.cx = 0
  · have hnone : ¬ HasRun m m.cx := by
      rcases hfirst with ⟨hne, -⟩ | ⟨-, hnone⟩
      · exact absurd hstart hne
      · rintro ⟨s, hs, hle, hfree⟩
        exact hnone s hs hle hfree
    have hax : (failWith m 0x8011).1.ax = 0x8011 := r16_setR16 m .eax _
    refine ⟨(failWith m 0x8011).1, true, ?_, ?_⟩
    · unfold int31_0000
      dsimp only
      rw [if_neg hcount, if_pos hstart]
      rfl
    · exact ⟨⟨fun _ => hnone, fun _ => ⟨rfl, hax⟩⟩, ⟨fun h => (by cases h), fun h => absurd h hnone⟩,
        fun h => by cases h⟩
  · obtain ⟨r, hr⟩ : ∃ r, int31_0000 m = some (r, false) := by
      unfold int31_0000
      dsimp only
      rw [if_neg hcount, if_neg hstart]
      exact ⟨_, rfl⟩
    cases int31_0000_effect hcpl hr with
    | run start pos count first view answer =>
      rcases first with ⟨-, hle, hfree, hlow⟩ | ⟨h₀, -⟩
      · have hrun : HasRun m m.cx := ⟨start, by omega, hle, hfree⟩
        refine ⟨r, false, hr, ⟨fun h => ?_, fun h => absurd hrun h⟩, ⟨fun _ => hrun, fun _ => rfl⟩, ?_⟩
        · cases h.1
        · intro _ s hs hlt
          rw [answer, clientSelector_slot hcpl] at hlt
          exact hlow s hs hlt
      · exact absurd h₀ pos
    | edited which => rcases which with h | h <;> cases h

/-- The calls of a client that allocates and frees only. -/
def slotCalls : List LdtCall := [.ax0000, .ax0001, .ax0002, .ax000A, .ax000D, .ax0100, .ax0101]

def OnlySlotCalls (_ : Machine) : LdtEvent → Prop
  | .between => True
  | .call c => c ∈ slotCalls

theorem keepsBases_slotCalls {c : LdtCall} (h : c ∈ slotCalls) : KeepsBases m c := by
  rintro (rfl | rfl)
  · exact absurd h (by decide)
  · exact absurd h (by decide)

/-- What one event keeps. -/
theorem slots_step {s t : Machine} {e : LdtEvent} (h : s.ldtView.Ok ∧ s.ldtInUse 0 = true)
    (hk : ∀ c, e = .call c → KeepsBases s c) (hstep : ldtStep eng s e t) :
    t.ldtView.Ok ∧ t.ldtInUse 0 = true := by
  cases e with
  | between =>
    have huse : t.ldtInUse = s.ldtInUse := congrArg LdtView.inUse hstep
    have hview : t.ldtView = s.ldtView := hstep
    rw [hview, huse]
    exact h
  | call c =>
    obtain ⟨cf, hserve⟩ := hstep
    have he := serve_effect h.1.cpl hserve
    refine ⟨he.ok h.1 (hk c rfl), he.inUse h.2 ?_⟩
    rintro (⟨-, harg⟩ | ⟨-, harg⟩)
    · exact (freeArg_eq harg).2.1 rfl
    · exact (dosBlockSlot_eq harg).2.1 rfl

/-- **LDT slots.**  After a DPMI entry and any run of the allocating and freeing calls, the slots are
    in order. -/
theorem ldtSlots_sound {m₀ : Machine} (hcpl : m₀.clientCpl < 4) {es : List LdtEvent} {m : Machine}
    (hrun : Guarded (ldtStep eng) OnlySlotCalls (dosizDpmiEntry eng m₀) es m) : SlotsSound eng m := by
  have h₀ := ldtFresh_entry eng m₀
  have hnone := h₀.noConversions (entry_cpl hcpl)
  obtain ⟨hok, hreserved⟩ : m.ldtView.Ok ∧ m.ldtInUse 0 = true := by
    refine hrun.invariant (P := fun s => s.ldtView.Ok ∧ s.ldtInUse 0 = true) ?_ ⟨hnone.ok, h₀.reserved⟩
    intro s e t h hg hstep
    refine slots_step h (fun c hc => ?_) hstep
    subst hc
    exact keepsBases_slotCalls hg
  have hcpl' : m.clientCpl < 4 := hok.cpl
  refine ⟨hreserved, ?_, ?_, int31_0000_answer hcpl', ?_, ?_⟩
  · intro c r cf hserve i hi
    exact (serve_effect hcpl' hserve).handsOut_free hcpl' hi
  · intro hcount
    unfold int31_0000
    dsimp only
    rw [if_pos hcount]
  · intro hhit
    obtain ⟨r, hr⟩ : ∃ r, int31_0002 m = some (r, false) := by
      unfold int31_0002
      dsimp only
      rw [if_pos hhit]
      exact ⟨_, rfl⟩
    cases int31_0002_effect hcpl' hr with
    | cached _ view answer =>
      have hsel : clientSelector m (m.seg2descCache m.bx) < 65536 :=
        clientSelector_lt hcpl' (hok.slot m.bx)
      have hslot : r.ax / 8 = m.seg2descCache m.bx := by
        rw [answer, Nat.mod_eq_of_lt hsel]
        exact clientSelector_slot hcpl' _
      refine ⟨r, hr, hslot, congrArg LdtView.inUse view, ?_, ?_⟩
      · rw [hslot]
        exact hok.taken m.bx hhit
      · rw [hslot]
        exact hok.base m.bx hhit
    | converted _ _ miss => exact absurd miss hhit
    | edited which => rcases which with h | h <;> cases h
  · intro c r cf i hserve hi es m' hrun' c' r' cf' hserve' hi'
    have he := serve_effect hcpl' hserve
    have hcpl₁ : r.clientCpl < 4 := he.cpl ▸ hcpl'
    have hcpl₂ : m'.clientCpl < 4 := by
      refine hrun'.invariant (P := fun s => s.clientCpl < 4) ?_ hcpl₁
      intro s e t hs hstep
      cases e with
      | between =>
        have hcpl : t.clientCpl = s.clientCpl := congrArg LdtView.cpl hstep
        exact hcpl ▸ hs
      | call c =>
        obtain ⟨cf, hserve⟩ := hstep
        exact (serve_effect hs hserve).cpl ▸ hs
    have hfree := ((serve_effect hcpl₂ hserve').handsOut_free hcpl₂ hi').2.2.1
    exact freed_between hrun' hcpl₁ (he.handsOut_free hcpl' hi).2.2.2 hfree

/-- The client loads CX. -/
def loadCx (m : Machine) (n : Nat) : Machine := m.setR16 .ecx n

theorem loadCx_cx (m : Machine) {n : Nat} (h : n < 65536) : (loadCx m n).cx = n :=
  (r16_setR16 m .ecx n).trans (Nat.mod_eq_of_lt h)

theorem ldtStep_loadCx (eng : Engine) (m : Machine) (n : Nat) :
    ldtStep eng m .between (loadCx m n) := ldtView_cpu m .ecx n

/-- The client loads BX, CX and DX. -/
def loadRegs (m : Machine) (bx cx dx : Nat) : Machine :=
  ((m.setR16 .ebx bx).setR16 .ecx cx).setR16 .edx dx

theorem ldtStep_loadRegs (eng : Engine) (m : Machine) (bx cx dx : Nat) :
    ldtStep eng m .between (loadRegs m bx cx dx) := rfl

/-- Two slots can be asked for. -/
theorem two_slots (hcpl : m.clientCpl < 4) : ∃ r cf, int31_0000 (loadCx m 2) = some (r, cf) := by
  have hcx : (loadCx m 2).cx = 2 := loadCx_cx m (by decide)
  obtain ⟨r, cf, hr, -⟩ := int31_0000_answer (m := loadCx m 2) hcpl (by rw [hcx]; decide)
    (by rw [hcx]; decide)
  exact ⟨r, cf, hr⟩

theorem ldtSlots_sound_boot : ∃ r, Guarded (ldtStep tableEngine) OnlySlotCalls
    (dosizDpmiEntry tableEngine bootMachine) [.between, .call .ax0000] r ∧ SlotsSound tableEngine r := by
  have hcpl : bootMachine.clientCpl < 4 := by decide
  obtain ⟨r, cf, hr⟩ := two_slots
    ((ldtFresh_entry tableEngine bootMachine).noConversions (entry_cpl hcpl)).cpl
  have hrun : Guarded (ldtStep tableEngine) OnlySlotCalls (dosizDpmiEntry tableEngine bootMachine)
      [.between, .call .ax0000] r :=
    .cons trivial (ldtStep_loadCx tableEngine _ 2)
      (.cons (by decide : LdtCall.ax0000 ∈ slotCalls) ⟨cf, hr⟩ (.nil r))
  exact ⟨r, hrun, ldtSlots_sound hcpl hrun⟩

theorem run_256 (m : Machine) : int31_0000 (loadCx m 256) = some (failWith (loadCx m 256) 0x8021) ∧
    (failWith (loadCx m 256) 0x8021).1.ax = 0x8021 ∧ ¬ HasRun (loadCx m 256) (loadCx m 256).cx := by
  have hcx : (loadCx m 256).cx = 256 := loadCx_cx m (by decide)
  refine ⟨?_, r16_setR16 _ .eax _, ?_⟩
  · unfold int31_0000
    dsimp only
    rw [if_pos (by rw [hcx]; decide)]
  · rintro ⟨s, hs, hle, -⟩
    rw [hcx] at hle
    simp only [LDT_COUNT] at hle
    omega

/-- CX=256 is refused with 8021h, though there is no run of 256 free slots. -/
theorem ldtSlots_outOfRange : ¬ ∀ es m, Guarded (ldtStep tableEngine) OnlySlotCalls
    (dosizDpmiEntry tableEngine bootMachine) es m → ∀ r cf, int31_0000 m = some (r, cf) →
      ((cf = true ∧ r.ax = 0x8011) ↔ ¬ HasRun m m.cx) := by
  intro h
  obtain ⟨hanswer, hax, hnone⟩ := run_256 (dosizDpmiEntry tableEngine bootMachine)
  have hrun : Guarded (ldtStep tableEngine) OnlySlotCalls (dosizDpmiEntry tableEngine bootMachine)
      [.between] (loadCx (dosizDpmiEntry tableEngine bootMachine) 256) :=
    .cons trivial (ldtStep_loadCx tableEngine _ 256) (.nil _)
  have hcode := ((h _ _ hrun _ _ hanswer).mpr hnone).2
  exact absurd (hax.symm.trans hcode) (by decide)

end Dosiz
