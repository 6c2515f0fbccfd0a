/-
  Dosiz/PmArena.lean
  ==================
  **The protected-mode arena** (`pm_init` … `pm_resize` of `bridge.cc`).

  DPMI blocks above 1 MB come from a list of page-aligned blocks in
  `[PM_ARENA_START, s_pm_end)`.  All arithmetic of the source is on `uint32_t`; the
  translation keeps every wrap-around.  `PmOk` is the invariant: the list is packed in
  the range.  Allocating and freeing keep it for every request, because `pm_alloc`
  tests the one sum that could wrap.  `pm_resize` computes `base + new_rounded`
  without such a test: it keeps the invariant exactly when that sum does not wrap
  (`pmResize_packed`, `pmResize_wraps`).
-/
import Dosiz.Machine

namespace Dosiz.PmArena

open ByteMemory Extents

def PM_ARENA_START : Nat := 0x120000
def PM_PAGE : Nat := 4096

/-! ### The functions of the source -/

def pmInit (m : Machine) : Machine :=
  if m.pmInitialised then m
  else
    { m with
      pmEnd := min (m.totalPages * PM_PAGE) 0xFFFFFFFF
      pmInitialised := true }

/-- `pm_round_up`; adding `PM_PAGE - 1` may wrap. -/
def pmRoundUp (bytes : Nat) : Nat := lin (bytes + (PM_PAGE - 1)) / PM_PAGE * PM_PAGE

/-- The `for` loop of `pm_alloc`: the cursor it stops with, and `found` (0 if no gap). -/
def pmScan (rounded : Nat) : Nat → List PmBlock → Nat × Nat
  | cursor, [] => (cursor, 0)
  | cursor, b :: bs =>
    if cursor ≤ b.base ∧ rounded ≤ b.base - cursor then (cursor, cursor)
    else pmScan rounded (lin (b.base + b.size)) bs

/-- The list in the order `std::sort` puts it in. -/
def sortByBase (bs : List PmBlock) : List PmBlock := bs.insertionSort (fun a b => a.base ≤ b.base)

/-- `found` after the loop and the test for room behind the last block. -/
def pmPlace (pmEnd rounded : Nat) (busy : List PmBlock) : Nat :=
  let cursor := (pmScan rounded PM_ARENA_START busy).1
  let found := (pmScan rounded PM_ARENA_START busy).2
  if found = 0 ∧ cursor < pmEnd ∧ rounded ≤ pmEnd - cursor then cursor else found

/-- `pm_alloc`: the block's linear address, or 0. -/
def pmAlloc (m : Machine) (bytes : Nat) : Machine × Nat :=
  let m := pmInit m
  if bytes = 0 ∨ m.pmEnd ≤ PM_ARENA_START then (m, 0)
  else
    let rounded := pmRoundUp bytes
    if rounded < bytes then (m, 0)
    else
      let busy := sortByBase m.pmBusy
      let found := pmPlace m.pmEnd rounded busy
      if found = 0 then ({ m with pmBusy := busy }, 0)
      else
        ({ m with pmBusy := busy ++ [⟨found, rounded⟩], mem := fill m.mem found rounded 0 }, found)

/-- `pm_free` -/
def pmFree (m : Machine) (base : Nat) : Machine × Bool :=
  ({ m with pmBusy := m.pmBusy.eraseP (fun b => b.base = base) },
    m.pmBusy.any (fun b => b.base = base))

/-- The first block with the given base, with the blocks before and after it. -/
def pmFind (base : Nat) : List PmBlock → Option (List PmBlock × PmBlock × List PmBlock)
  | [] => none
  | b :: bs =>
    if b.base = base then some ([], b, bs)
    else (pmFind base bs).map fun r => (b :: r.1, r.2.1, r.2.2)

/-- `pm_resize` -/
def pmResize (m : Machine) (base newBytes : Nat) : Machine × Bool :=
  let m := pmInit m
  if newBytes = 0 then (m, false)
  else
    let newRounded := pmRoundUp newBytes
    if newRounded < newBytes then (m, false)
    else
      match pmFind base m.pmBusy with
      | none => (m, false)
      | some (pre, me, post) =>
        let resized := { m with pmBusy := pre ++ ⟨me.base, newRounded⟩ :: post }
        if newRounded ≤ me.size then (resized, true)
        else if m.pmEnd < lin (base + newRounded) then (m, false)
        else if (pre ++ post).any fun b =>
            b.base < lin (base + newRounded) ∧ base < lin (b.base + b.size) then (m, false)
        else (resized, true)

/-! ### Rounding -/

theorem pmRoundUp_dvd (bytes : Nat) : PM_PAGE ∣ pmRoundUp bytes := Nat.dvd_mul_left _ _

theorem pmRoundUp_lt (bytes : Nat) : pmRoundUp bytes < 4294967296 := by
  simp only [pmRoundUp, lin, PM_PAGE]
  omega

/-- Unless the sum wrapped, the rounded size is the next page boundary. -/
theorem pmRoundUp_of_le {bytes : Nat} (h : bytes ≤ 0xFFFFF000) :
    bytes ≤ pmRoundUp bytes ∧ pmRoundUp bytes < bytes + PM_PAGE := by
  simp only [pmRoundUp, lin, PM_PAGE]
  omega

theorem pmRoundUp_of_gt {bytes : Nat} (h : 0xFFFFF000 < bytes) (h' : bytes < 4294967296) :
    pmRoundUp bytes = 0 := by
  simp only [pmRoundUp, lin, PM_PAGE]
  omega

theorem le_of_le_pmRoundUp {bytes : Nat} (hb : bytes < 4294967296)
    (h : ¬ pmRoundUp bytes < bytes) : bytes ≤ 0xFFFFF000 := by
  by_contra hgt
  rw [pmRoundUp_of_gt (by omega) hb] at h
  omega

/-! ### The invariant -/

/-- The busy list is packed in the arena.  Before `pm_init` has run it is empty. -/
structure PmOk (m : Machine) : Prop where
  packed : Packed PM_ARENA_START m.pmEnd PM_PAGE m.pmBusy
  high : m.pmEnd < 4294967296
  fresh : m.pmInitialised = false → m.pmBusy = []

theorem pmInit_ok {m : Machine} (h : PmOk m) : PmOk (pmInit m) := by
  unfold pmInit
  split_ifs with hi
  · exact h
  · have hb := h.fresh (by simpa using hi)
    refine ⟨?_, ?_, fun _ => hb⟩
    · simp only [hb]
      exact Packed.nil
    · simp only
      omega

theorem pmInit_busy (m : Machine) : (pmInit m).pmBusy = m.pmBusy := by
  unfold pmInit
  split_ifs <;> rfl

theorem pmInit_initialised (m : Machine) : (pmInit m).pmInitialised = true := by
  unfold pmInit
  split_ifs with h
  · exact h
  · rfl

theorem pmInit_mem (m : Machine) : (pmInit m).mem = m.mem := by
  unfold pmInit
  split_ifs <;> rfl

theorem sortByBase_perm (bs : List PmBlock) : (sortByBase bs).Perm bs :=
  List.perm_insertionSort _ _

theorem sortByBase_sorted (bs : List PmBlock) :
    (sortByBase bs).Pairwise (fun a b => a.base ≤ b.base) := by
  have : Std.Total (fun a b : PmBlock => a.base ≤ b.base) := ⟨fun a b => Nat.le_total _ _⟩
  have : IsTrans PmBlock (fun a b => a.base ≤ b.base) := ⟨fun a b c h₁ h₂ => Nat.le_trans h₁ h₂⟩
  exact List.pairwise_insertionSort _ _

/-- On a packed list the scan of the source is first fit: nothing wraps. -/
theorem pmScan_eq_firstGap {hi : Nat} (rounded : Nat) (hhi : hi < 4294967296) :
    ∀ {cursor : Nat} {bs : List PmBlock}, Packed PM_ARENA_START hi PM_PAGE bs → cursor ≠ 0 →
      (pmScan rounded cursor bs).1 = (firstGap rounded cursor bs).1 ∧
      ((pmScan rounded cursor bs).2 = 0 ↔ (firstGap rounded cursor bs).2 = false) ∧
      ((firstGap rounded cursor bs).2 = true →
        (pmScan rounded cursor bs).2 = (firstGap rounded cursor bs).1)
  | cursor, [], _, _ => by simp [pmScan, firstGap]
  | cursor, b :: bs, hp, h0 => by
    have hfit := hp.fits b List.mem_cons_self
    have hstop : lin (b.base + b.size) = b.stop := by
      have := hfit.high
      simp only [Extent.stop] at this
      exact lin_of_lt (by omega)
    unfold pmScan firstGap
    split_ifs with hgap
    · simp [h0]
    · rw [hstop]
      refine pmScan_eq_firstGap rounded hhi (hp.sublist (List.sublist_cons_self b bs)) ?_
      have := hfit.low
      simp only [Extent.stop, PM_ARENA_START] at this ⊢
      omega

/-! ### Allocating and freeing -/

/-- What `pm_alloc` may change: guest memory, the list, and the two globals of `pm_init`. -/
theorem pmAlloc_frame (m : Machine) (bytes : Nat) :
    ∃ mem busy, (pmAlloc m bytes).1 = { pmInit m with mem := mem, pmBusy := busy } := by
  unfold pmAlloc
  simp only
  split_ifs
  · exact ⟨_, _, rfl⟩
  · exact ⟨_, _, rfl⟩
  · exact ⟨(pmInit m).mem, _, rfl⟩
  · exact ⟨_, _, rfl⟩

theorem pmScan_dvd {rounded : Nat} (hr : PM_PAGE ∣ rounded) :
    ∀ {cursor : Nat} {bs : List PmBlock}, PM_PAGE ∣ cursor →
      (∀ b ∈ bs, PM_PAGE ∣ b.base ∧ PM_PAGE ∣ b.size) →
      PM_PAGE ∣ (pmScan rounded cursor bs).1 ∧ PM_PAGE ∣ (pmScan rounded cursor bs).2
  | cursor, [], hc, _ => ⟨hc, Nat.dvd_zero _⟩
  | cursor, b :: bs, hc, hb => by
    unfold pmScan
    split_ifs with hgap
    · exact ⟨hc, hc⟩
    · refine pmScan_dvd hr ?_ fun b' hb' => hb b' (List.mem_cons_of_mem _ hb')
      have h := hb b List.mem_cons_self
      simp only [lin, PM_PAGE] at h ⊢
      omega

/-- The place `pm_alloc` settles on, when it is not 0, can hold the rounded request. -/
theorem pmPlace_spec {hi rounded : Nat} {bs : List PmBlock} (hhi : hi < 4294967296)
    (hp : Packed PM_ARENA_START hi PM_PAGE bs) (hs : bs.Pairwise (fun a b => a.base ≤ b.base))
    (hr : PM_PAGE ∣ rounded) (hr0 : 0 < rounded) (hplace : pmPlace hi rounded bs ≠ 0) :
    Fits PM_ARENA_START hi PM_PAGE ⟨pmPlace hi rounded bs, rounded⟩ ∧
      ∀ f ∈ bs, Apart f ⟨pmPlace hi rounded bs, rounded⟩ := by
  obtain ⟨hc, hz, hf⟩ := pmScan_eq_firstGap rounded hhi hp (show PM_ARENA_START ≠ 0 by decide)
  obtain ⟨h₁, h₂, h₃⟩ := firstGap_spec rounded hp hs fun e he => (hp.fits e he).low
  obtain ⟨hd₁, hd₂⟩ := pmScan_dvd hr (show PM_PAGE ∣ PM_ARENA_START by decide)
    fun b hb => ⟨(hp.fits b hb).base_dvd, (hp.fits b hb).size_dvd⟩
  unfold pmPlace at hplace ⊢
  simp only at hplace ⊢
  split_ifs at hplace ⊢ with hlast
  · -- no gap: the room after the last block
    rw [hc] at hlast ⊢
    exact ⟨⟨h₁, by simp only [Extent.stop]; omega, hr0, hc ▸ hd₁, hr⟩,
      fun f hfm => Or.inl (h₃ (hz.mp hlast.1) f hfm)⟩
  · have hgap : (firstGap rounded PM_ARENA_START bs).2 = true := by
      by_contra hno
      exact hplace (hz.mpr (by simpa using hno))
    rw [hf hgap]
    exact ⟨⟨h₁, (h₂ hgap).1, hr0, hf hgap ▸ hd₂, hr⟩, (h₂ hgap).2⟩

/-- `pm_alloc` keeps the arena packed for every request.  When it returns an address, the
    block there has at least the requested size, and only its bytes were written. -/
theorem pmAlloc_spec {m : Machine} (h : PmOk m) {bytes : Nat} (hb : bytes < 4294967296) :
    PmOk (pmAlloc m bytes).1 ∧
    (((pmAlloc m bytes).2 = 0 ∧ (pmAlloc m bytes).1.pmBusy.Perm m.pmBusy ∧
        (pmAlloc m bytes).1.mem = m.mem) ∨
      ∃ e : PmBlock, (pmAlloc m bytes).2 = e.base ∧ bytes ≤ e.size ∧ bytes ≠ 0 ∧
        (pmAlloc m bytes).1.pmBusy.Perm (m.pmBusy ++ [e]) ∧
        Fits PM_ARENA_START (pmAlloc m bytes).1.pmEnd PM_PAGE e ∧
        AgreesOff (Set.Ico e.base e.stop) m.mem (pmAlloc m bytes).1.mem) := by
  have hi := pmInit_ok h
  have hbusy := pmInit_busy m
  have hmem := pmInit_mem m
  have hperm := sortByBase_perm (pmInit m).pmBusy
  have hpk := hi.packed.perm hperm.symm
  unfold pmAlloc
  by_cases h₁ : bytes = 0 ∨ (pmInit m).pmEnd ≤ PM_ARENA_START
  · simp only [if_pos h₁]
    exact ⟨hi, Or.inl ⟨trivial, by rw [hbusy], hmem⟩⟩
  by_cases h₂ : pmRoundUp bytes < bytes
  · simp only [if_neg h₁, if_pos h₂]
    exact ⟨hi, Or.inl ⟨trivial, by rw [hbusy], hmem⟩⟩
  have hround := pmRoundUp_of_le (le_of_le_pmRoundUp hb h₂)
  simp only [if_neg h₁, if_neg h₂]
  by_cases h₃ : pmPlace (pmInit m).pmEnd (pmRoundUp bytes) (sortByBase (pmInit m).pmBusy) = 0
  · simp only [if_pos h₃]
    refine ⟨⟨hpk, hi.high, fun hf => ?_⟩, Or.inl ⟨trivial, by rw [← hbusy]; exact hperm, hmem⟩⟩
    simp only [hi.fresh hf, sortByBase, List.insertionSort_nil]
  · simp only [if_neg h₃]
    obtain ⟨hfit, hap⟩ := pmPlace_spec hi.high hpk (sortByBase_sorted _) (pmRoundUp_dvd bytes)
      (by omega) h₃
    refine ⟨⟨hpk.concat hfit hap, hi.high, fun hf => ?_⟩, Or.inr ⟨_, rfl, hround.1, by omega, ?_,
      hfit, ?_⟩⟩
    · simp only [pmInit_initialised, Bool.true_eq_false] at hf
    · rw [← hbusy]
      exact hperm.append_right _
    · rw [← hmem]
      exact fill_off _ _ _ _

theorem pmFree_ok {m : Machine} (h : PmOk m) (base : Nat) : PmOk (pmFree m base).1 where
  packed := h.packed.sublist List.eraseP_sublist
  high := h.high
  fresh hf := by
    simp only [pmFree, h.fresh hf, List.eraseP_nil]

/-- Blocks of a packed arena have different bases, so the freed one is gone. -/
theorem pmFree_gone {m : Machine} (h : PmOk m) (base : Nat) :
    ∀ e ∈ (pmFree m base).1.pmBusy, e.base ≠ base := by
  intro e he hb
  by_cases hex : ∃ f ∈ m.pmBusy, f.base = base
  · obtain ⟨f, hf, hfb⟩ := hex
    obtain ⟨g, pre, post, -, hg, hsplit, herase⟩ := List.exists_of_eraseP
      (p := fun b : PmBlock => decide (b.base = base)) hf (decide_eq_true hfb)
    simp only [pmFree, herase] at he
    have hp := h.packed
    rw [hsplit] at hp
    have hap := hp.apart_mid e he
    have hep := (h.packed.sublist List.eraseP_sublist).fits e (herase ▸ he)
    have hgp := hp.fits g (by simp)
    have hgb : g.base = base := by simpa using hg
    have := hep.pos
    have := hgp.pos
    simp only [Apart, Extent.stop] at hap
    omega
  · have hmem : e ∈ m.pmBusy := List.mem_of_mem_eraseP he
    exact hex ⟨e, hmem, hb⟩

/-! ### Resizing -/

theorem pmFind_eq_some {base : Nat} {bs pre post : List PmBlock} {me : PmBlock}
    (h : pmFind base bs = some (pre, me, post)) : bs = pre ++ me :: post ∧ me.base = base := by
  induction bs generalizing pre with
  | nil => simp [pmFind] at h
  | cons b bs ih =>
    unfold pmFind at h
    split_ifs at h with hb
    · obtain ⟨rfl, rfl, rfl⟩ : [] = pre ∧ b = me ∧ bs = post := by simpa using h
      exact ⟨rfl, hb⟩
    · obtain ⟨⟨pre', me', post'⟩, hr, hrr⟩ := Option.map_eq_some_iff.mp h
      obtain ⟨rfl, rfl, rfl⟩ : b :: pre' = pre ∧ me' = me ∧ post' = post := by simpa using hrr
      obtain ⟨h₁, h₂⟩ := ih hr
      exact ⟨by rw [h₁]; rfl, h₂⟩

theorem pmFind_of_mem {base : Nat} {bs : List PmBlock} (h : ∃ b ∈ bs, b.base = base) :
    ∃ pre me post, pmFind base bs = some (pre, me, post) := by
  induction bs with
  | nil => simp at h
  | cons b bs ih =>
    unfold pmFind
    by_cases hb : b.base = base
    · rw [if_pos hb]
      exact ⟨[], b, bs, rfl⟩
    · obtain ⟨c, hc, hcb⟩ := h
      have hc' : c ∈ bs := by
        rcases List.mem_cons.mp hc with rfl | hc
        · exact absurd hcb hb
        · exact hc
      obtain ⟨pre, me, post, hf⟩ := ih ⟨c, hc', hcb⟩
      rw [if_neg hb, hf]
      exact ⟨_, _, _, rfl⟩

/-- What `pm_resize` may change: the list, and the two globals of `pm_init`. -/
theorem pmResize_frame (m : Machine) (base newBytes : Nat) :
    ∃ busy, (pmResize m base newBytes).1 = { pmInit m with pmBusy := busy } := by
  unfold pmResize
  by_cases h₁ : newBytes = 0
  · simp only [if_pos h₁]
    exact ⟨_, rfl⟩
  by_cases h₂ : pmRoundUp newBytes < newBytes
  · simp only [if_neg h₁, if_pos h₂]
    exact ⟨_, rfl⟩
  simp only [if_neg h₁, if_neg h₂]
  cases pmFind base (pmInit m).pmBusy with
  | none => exact ⟨_, rfl⟩
  | some r =>
    obtain ⟨pre, me, post⟩ := r
    dsimp only
    split_ifs <;> exact ⟨_, rfl⟩

/-- While `base + new_rounded` does not wrap, `pm_resize` keeps the arena packed, and on
    success the block has at least the requested size. -/
theorem pmResize_packed {m : Machine} (h : PmOk m) {base newBytes : Nat}
    (hb : newBytes < 4294967296) (hsum : base + pmRoundUp newBytes < 4294967296) :
    PmOk (pmResize m base newBytes).1 ∧
      ((pmResize m base newBytes).2 = true → ∃ pre me post, m.pmBusy = pre ++ me :: post ∧
        me.base = base ∧ newBytes ≤ pmRoundUp newBytes ∧
        (pmResize m base newBytes).1.pmBusy = pre ++ ⟨base, pmRoundUp newBytes⟩ :: post) := by
  have hi := pmInit_ok h
  have hbusy := pmInit_busy m
  unfold pmResize
  by_cases h₁ : newBytes = 0
  · simp only [if_pos h₁]
    exact ⟨hi, fun hx => by cases hx⟩
  by_cases h₂ : pmRoundUp newBytes < newBytes
  · simp only [if_neg h₁, if_pos h₂]
    exact ⟨hi, fun hx => by cases hx⟩
  have hround := pmRoundUp_of_le (le_of_le_pmRoundUp hb h₂)
  simp only [if_neg h₁, if_neg h₂]
  cases hfind : pmFind base (pmInit m).pmBusy with
  | none => exact ⟨hi, fun hx => by cases hx⟩
  | some r =>
    obtain ⟨pre, me, post⟩ := r
    obtain ⟨hsplit, hbase⟩ := pmFind_eq_some hfind
    have hpk := hi.packed
    rw [hsplit] at hpk
    have hme := hpk.fits me (by simp)
    have hlin : lin (base + pmRoundUp newBytes) = base + pmRoundUp newBytes := lin_of_lt hsum
    -- the resized block, once it is known to end in range and clear of the others
    have hok : base + pmRoundUp newBytes ≤ (pmInit m).pmEnd →
        (∀ f ∈ pre ++ post, Apart ⟨base, pmRoundUp newBytes⟩ f) →
        PmOk { pmInit m with pmBusy := pre ++ ⟨me.base, pmRoundUp newBytes⟩ :: post } := by
      intro hend hap
      refine ⟨hpk.replace ⟨hme.low, ?_, ?_, hme.base_dvd, pmRoundUp_dvd _⟩ ?_, hi.high, ?_⟩
      · rw [hbase]
        exact hend
      · simp only
        omega
      · rw [hbase]
        exact hap
      · intro hf
        simp only [pmInit_initialised, Bool.true_eq_false] at hf
    have hres : m.pmBusy = pre ++ me :: post := hbusy.symm.trans hsplit
    simp only [hlin]
    by_cases hshrink : pmRoundUp newBytes ≤ me.size
    · simp only [if_pos hshrink]
      refine ⟨hok ?_ ?_, fun _ => ⟨pre, me, post, hres, hbase, hround.1, by rw [hbase]⟩⟩
      · have := hme.high
        simp only [Extent.stop] at this
        omega
      · intro f hf
        rcases hpk.apart_mid f hf with hap | hap
        · refine Or.inl ?_
          simp only [Extent.stop] at hap ⊢
          omega
        · refine Or.inr ?_
          rw [← hbase]
          exact hap
    · simp only [if_neg hshrink]
      by_cases hend : (pmInit m).pmEnd < base + pmRoundUp newBytes
      · simp only [if_pos hend]
        exact ⟨hi, fun hx => by cases hx⟩
      · simp only [if_neg hend]
        split_ifs with hany
        · exact ⟨hi, fun hx => by cases hx⟩
        · refine ⟨hok (Nat.le_of_not_lt hend) ?_,
            fun _ => ⟨pre, me, post, hres, hbase, hround.1, by rw [hbase]⟩⟩
          intro f hf
          have hfm : f ∈ pre ++ me :: post := by
            rcases List.mem_append.mp hf with hf | hf
            · exact List.mem_append_left _ hf
            · exact List.mem_append_right _ (List.mem_cons_of_mem _ hf)
          have hstop : lin (f.base + f.size) = f.stop := by
            have := (hpk.fits f hfm).high
            simp only [Extent.stop] at this ⊢
            have := hi.high
            exact lin_of_lt (by omega)
          have hno : ¬ (f.base < base + pmRoundUp newBytes ∧ base < f.stop) := by
            intro hx
            refine hany (List.any_eq_true.mpr ⟨f, hf, ?_⟩)
            rw [hstop]
            simpa using hx
          simp only [Apart, Extent.stop] at hno ⊢
          omega

/-- When `base + new_rounded` wraps, `pm_resize` of a live block succeeds and records a block
    that runs past the end of the arena. -/
theorem pmResize_wraps {m : Machine} (h : PmOk m) {base newBytes : Nat}
    (hlive : ∃ b ∈ m.pmBusy, b.base = base) (hb : newBytes < 4294967296)
    (hsum : 4294967296 ≤ base + pmRoundUp newBytes) :
    (pmResize m base newBytes).2 = true ∧ ∃ pre me post, m.pmBusy = pre ++ me :: post ∧
      me.base = base ∧ (pmResize m base newBytes).1.pmBusy =
        pre ++ ⟨base, pmRoundUp newBytes⟩ :: post := by
  have hi := pmInit_ok h
  have hbusy := pmInit_busy m
  rw [← hbusy] at hlive
  obtain ⟨pre, me, post, hfind⟩ := pmFind_of_mem hlive
  obtain ⟨hsplit, hbase⟩ := pmFind_eq_some hfind
  have hpk := hi.packed
  rw [hsplit] at hpk
  have hme := hpk.fits me (by simp)
  have hhigh := hme.high
  have hlt := pmRoundUp_lt newBytes
  have hend := hi.high
  simp only [Extent.stop] at hhigh
  have hle : newBytes ≤ 0xFFFFF000 := by
    by_contra hgt
    rw [pmRoundUp_of_gt (by omega) hb] at hsum
    omega
  have hround := pmRoundUp_of_le hle
  have hdvd := pmRoundUp_dvd newBytes
  have hbdvd := hme.base_dvd
  have hlin : lin (base + pmRoundUp newBytes) = base + pmRoundUp newBytes - 4294967296 := by
    simp only [lin]
    omega
  have hbelow : base + pmRoundUp newBytes - 4294967296 < base := by omega
  -- no other block straddles `base`, so the collision test finds nothing
  have hany : (pre ++ post).any (fun b => decide (b.base < lin (base + pmRoundUp newBytes) ∧
      base < lin (b.base + b.size))) = false := by
    refine List.any_eq_false.mpr fun f hf => ?_
    have hfm : f ∈ pre ++ me :: post := by
      rcases List.mem_append.mp hf with hf | hf
      · exact List.mem_append_left _ hf
      · exact List.mem_append_right _ (List.mem_cons_of_mem _ hf)
    have hfh := (hpk.fits f hfm).high
    have hmp := hme.pos
    simp only [Extent.stop] at hfh
    rw [hlin, lin_of_lt (by omega)]
    have hap := hpk.apart_mid f hf
    simp only [Apart, Extent.stop] at hap
    simp only [decide_eq_true_eq]
    omega
  have hres : m.pmBusy = pre ++ me :: post := hbusy.symm.trans hsplit
  unfold pmResize
  have h₁ : ¬ newBytes = 0 := by
    rintro rfl
    have : pmRoundUp 0 = 0 := by decide
    omega
  have h₂ : ¬ pmRoundUp newBytes < newBytes := by omega
  have h₃ : ¬ pmRoundUp newBytes ≤ me.size := by omega
  have h₄ : ¬ (pmInit m).pmEnd < lin (base + pmRoundUp newBytes) := by omega
  simp only [if_neg h₁, if_neg h₂, hfind, if_neg h₃, if_neg h₄, hany, Bool.false_eq_true, if_false]
  exact ⟨trivial, pre, me, post, hres, hbase, by rw [hbase]⟩

end Dosiz.PmArena
