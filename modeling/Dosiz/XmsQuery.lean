/-
  Dosiz/XmsQuery.lean
  ===================
  **What XMS function 08h reports** (`dosiz_xms_driver` of `bridge.cc`).

  Function 08h puts one number in AX, the largest block, and in DX, all that is free: the
  kilobytes from the start of the arena to the end of memory, cut to 16 bits.  What is in use
  does not come into it.  `xmsQuery_iff` says for which memories and which blocks in use the number
  is right all the same.
-/
import Dosiz.PmAlloc
import Dosiz.XmsMove

namespace Dosiz.XmsHandles

open ByteMemory Machine PmArena Extents

/-- Function 08h: query the free memory. -/
def xms_08 (m : Machine) : Machine :=
  let m := pmInit m
  let totalKb := lin (m.pmEnd + 4294967296 - PM_ARENA_START) / 1024
  ((m.setR16 .eax totalKb).setR16 .edx totalKb).setR8l .ebx 0

/-- The end of the arena is the end of the configured memory, as far as 32 bits go. -/
def Configured (m : Machine) : Prop := m.pmInitialised = true → m.pmEnd = min (m.totalPages * PM_PAGE) 0xFFFFFFFF

/-- Function 09h for `n` KB, made right after function 08h, succeeds. -/
def Grants (x : Xms) (m : Machine) (n : Nat) : Prop := (xms_09 x ((xms_08 m).setR16 .edx n)).2.ax = 1

/-- The bytes of the arena that no block takes up. -/
def freeBytes (m : Machine) : Nat := (pmInit m).pmEnd - PM_ARENA_START - total m.pmBusy

/-- AX is the size of the largest block 09h can deliver, in KB, and DX what is free. -/
structure QueryRight (x : Xms) (m : Machine) : Prop where
  delivered : 0 < (xms_08 m).ax → Grants x m (xms_08 m).ax
  largest : 0 < (xms_08 m).ax → (xms_08 m).ax ≠ 0xFFFF → ¬ Grants x m ((xms_08 m).ax + 1)
  free : (xms_08 m).dx = min (freeBytes m / 1024) 0xFFFF

/-- Memory ends in or behind the arena and below 4 GB, the blocks in use take up so many times 64 MB that less
    than 64 MB are left, and these are in one piece. -/
structure WholeRest (m : Machine) : Prop where
  arena : PM_ARENA_START ≤ m.totalPages * PM_PAGE
  below : m.totalPages * PM_PAGE < 4294967296
  used : 0x4000000 ∣ total m.pmBusy
  rest : m.totalPages * PM_PAGE - PM_ARENA_START - total m.pmBusy < 0x4000000
  whole : ∃ a, Gap m a (m.totalPages * PM_PAGE - PM_ARENA_START - total m.pmBusy)

section Query

variable {x : Xms} {m : Machine}

theorem pmEnd_configured (hc : Configured m) : (pmInit m).pmEnd = min (m.totalPages * PM_PAGE) 0xFFFFFFFF := by
  unfold pmInit
  split_ifs with hi
  · exact hc hi
  · rfl

/-- The kilobytes that function 08h counts. -/
def reportedKb (m : Machine) : Nat := lin ((pmInit m).pmEnd + 4294967296 - PM_ARENA_START) / 1024

theorem xms_08_regs (m : Machine) : (xms_08 m).ax = reportedKb m % 65536 ∧ (xms_08 m).dx = reportedKb m % 65536 := by
  have hax : ((pmInit m).setR16 .eax (reportedKb m)).ax = reportedKb m % 65536 := r16_setR16 _ _ _
  have hdx : (((pmInit m).setR16 .eax (reportedKb m)).setR16 .edx (reportedKb m)).dx = reportedKb m % 65536 :=
    r16_setR16 _ _ _
  have hkeep : (((pmInit m).setR16 .eax (reportedKb m)).setR16 .edx (reportedKb m)).ax =
      ((pmInit m).setR16 .eax (reportedKb m)).ax := r16_setR16_of_ne _ _ (by decide)
  have hbl : ∀ (q : Machine) (r : Reg), r ≠ .ebx → (q.setR8l .ebx 0).r16 r = q.r16 r := by
    intro q r hr
    simp only [setR8l, r16, r32_setR32_of_ne _ _ hr]
  refine ⟨(hbl _ .eax (by decide)).trans (hkeep.trans hax), (hbl _ .edx (by decide)).trans hdx⟩

/-- 09h for `n` KB succeeds where the arena has a gap for them, in whole pages. -/
theorem grants_iff (hp : PmOk m) {n : Nat} (h₀ : 0 < n) (hn : n < 65536) :
    Grants x m n ↔ ∃ a, Gap m a (pageBytes (n * 1024)) := by
  have hsame : ((xms_08 m).setR16 .edx n).pmBusy = m.pmBusy ∧
      pmInit ((xms_08 m).setR16 .edx n) = (xms_08 m).setR16 .edx n := by
    refine ⟨pmInit_busy m, ?_⟩
    have hinit : ((xms_08 m).setR16 .edx n).pmInitialised = true := pmInit_initialised m
    rw [pmInit, if_pos hinit]
  have hok : PmOk ((xms_08 m).setR16 .edx n) := by
    have hi := pmInit_ok hp
    exact ⟨hi.packed, hi.high, hi.fresh⟩
  have hend : (pmInit ((xms_08 m).setR16 .edx n)).pmEnd = (pmInit m).pmEnd := by
    rw [hsame.2]
    rfl
  have hgap : ∀ a r, Gap ((xms_08 m).setR16 .edx n) a r ↔ Gap m a r := fun a r =>
    ⟨fun h => ⟨h.low, hend ▸ h.high, hsame.1 ▸ h.clear⟩,
      fun h => ⟨h.low, hend.symm ▸ h.high, hsame.1.symm ▸ h.clear⟩⟩
  have hdx : ((xms_08 m).setR16 .edx n).dx = n := (r16_setR16 _ _ _).trans (Nat.mod_eq_of_lt hn)
  have hgranted := @pmAlloc_granted _ hok (n * 1024) (by omega) (by omega)
  simp only [hgap] at hgranted
  rw [← hgranted, Grants, xms_09, hdx, if_neg (show n * 1024 ≠ 0 by omega)]
  split_ifs with hz
  · rw [hz]
    refine iff_of_false (fun h => ?_) fun h => h rfl
    rw [ax_refused] at h
    cases h
  · have hax : ∀ (q : Machine) k, (q.setR16s [(.eax, 1), (.edx, k)]).ax = 1 := by
      intro q k
      simp only [setR16s, List.foldl, ax, r16_setR16, ne_eq, reduceCtorEq, not_false_eq_true, r16_setR16_of_ne]
    exact iff_of_true (hax _ _) hz

theorem pageBytes_kb {n : Nat} (h : PM_PAGE ∣ n * 1024) : pageBytes (n * 1024) = n * 1024 := by
  simp only [pageBytes, PM_PAGE] at h ⊢
  omega

/-- With memory behind the start of the arena, what is reported is the size of the arena. -/
theorem reportedKb_eq (hp : PmOk m) (h : PM_ARENA_START ≤ (pmInit m).pmEnd) :
    reportedKb m = ((pmInit m).pmEnd - PM_ARENA_START) / 1024 := by
  have hhigh := (pmInit_ok hp).high
  have hsum : (pmInit m).pmEnd + 4294967296 - PM_ARENA_START = (pmInit m).pmEnd - PM_ARENA_START + 4294967296 := by
    omega
  rw [reportedKb, hsum, lin, Nat.add_mod_right, Nat.mod_eq_of_lt (by omega)]

/-- A memory that ends below the arena is reported with what lies between it and 4 GB. -/
theorem reportedKb_low (h : (pmInit m).pmEnd < PM_ARENA_START) : reportedKb m % 65536 ≠ 0 := by
  have hlow : lin ((pmInit m).pmEnd + 4294967296 - PM_ARENA_START) =
      (pmInit m).pmEnd + 4294967296 - PM_ARENA_START := lin_of_lt (by omega)
  rw [reportedKb, hlow]
  simp only [PM_ARENA_START] at h ⊢
  omega

/-- A gap is no larger than what is free. -/
theorem gap_le_free (hp : PmOk m) {a r : Nat} (h : Gap m a r) : r ≤ freeBytes m := by
  have hi := pmInit_ok hp
  have hfit := hi.packed.gap_le h.low h.high (by rw [pmInit_busy]; exact h.clear)
  rw [pmInit_busy] at hfit
  unfold freeBytes
  omega

/-- The arena and what is free of it, counted in pages. -/
theorem arena_pages (hp : PmOk m) (hend : (pmInit m).pmEnd = m.totalPages * PM_PAGE)
    (harena : PM_ARENA_START ≤ (pmInit m).pmEnd) : ∃ u t, t ≤ u ∧ (pmInit m).pmEnd - PM_ARENA_START = 4096 * u ∧
      total m.pmBusy = 4096 * t ∧ reportedKb m = 4 * u ∧ freeBytes m = 4096 * (u - t) := by
  have hused := (pmInit_ok hp).packed.total_le harena
  rw [pmInit_busy] at hused
  obtain ⟨t, ht⟩ : PM_PAGE ∣ total m.pmBusy := hp.packed.total_dvd
  have hsize : (pmInit m).pmEnd - PM_ARENA_START = 4096 * (m.totalPages - 0x120) := by
    rw [hend]
    simp only [PM_PAGE, PM_ARENA_START]
    omega
  have hkb := reportedKb_eq hp harena
  simp only [PM_PAGE] at ht
  refine ⟨m.totalPages - 0x120, t, by omega, hsize, ht, by omega, ?_⟩
  unfold freeBytes
  omega

/-- **The report of function 08h** is right exactly if memory ends in or behind the arena and below 4 GB, all but
    less than 64 MB of the arena is in use, in a multiple of 64 MB, and the rest is in one piece. -/
theorem xmsQuery_iff (x : Xms) (hp : PmOk m) (hc : Configured m) : QueryRight x m ↔ WholeRest m := by
  obtain ⟨hax, hdx⟩ := xms_08_regs m
  have hconf := pmEnd_configured hc
  constructor
  · intro h
    have hfree := h.free
    rw [hdx] at hfree
    have harena : PM_ARENA_START ≤ (pmInit m).pmEnd := by
      by_contra hlow
      have hnone : freeBytes m = 0 := by
        unfold freeBytes
        omega
      have hno := reportedKb_low (Nat.lt_of_not_le hlow)
      rw [hnone] at hfree
      omega
    have hbelow : m.totalPages * PM_PAGE < 4294967296 := by
      by_contra hhigh
      -- 64383 KB are reported and free, but no whole number of pages
      have htop : (pmInit m).pmEnd = 0xFFFFFFFF := by omega
      have hkb : reportedKb m % 65536 = 64383 := by
        rw [reportedKb_eq hp harena, htop]
        rfl
      rw [hkb] at hax hfree
      have hgrant := h.delivered (by omega)
      rw [hax, grants_iff hp (by decide) (by decide)] at hgrant
      obtain ⟨a, hgap⟩ := hgrant
      have hroom := gap_le_free hp hgap
      have hsize : pageBytes (64383 * 1024) = 64384 * 1024 := rfl
      omega
    have hend : (pmInit m).pmEnd = m.totalPages * PM_PAGE := by omega
    obtain ⟨u, t, htu, hsize, hused, hkb, hrest⟩ := arena_pages hp hend harena
    rw [hkb, hrest] at hfree
    have hblocks : 16384 ∣ t ∧ u - t < 16384 := by omega
    refine ⟨hend ▸ harena, hbelow, ?_, ?_, ?_⟩
    · omega
    · omega
    · rw [← hend, hsize, hused, ← Nat.mul_sub]
      rcases Nat.eq_zero_or_pos (u - t) with hnone | hsome
      · rw [hnone]
        exact ⟨PM_ARENA_START, Nat.le_refl _, harena, fun b hb => .inr (hp.packed.fits b hb).low⟩
      · rw [hkb, show 4 * u % 65536 = 4 * (u - t) by omega] at hax
        have hgrant := h.delivered (by omega)
        rw [hax, grants_iff hp (by omega) (by omega), pageBytes_kb ⟨u - t, by simp only [PM_PAGE]; omega⟩] at hgrant
        rw [show 4096 * (u - t) = 4 * (u - t) * 1024 by omega]
        exact hgrant
  · intro h
    have hend : (pmInit m).pmEnd = m.totalPages * PM_PAGE := by
      have := h.below
      omega
    have harena : PM_ARENA_START ≤ (pmInit m).pmEnd := hend ▸ h.arena
    obtain ⟨u, t, htu, hsize, hused, hkb, hrest⟩ := arena_pages hp hend harena
    have hwhole := h.whole
    have hblocks := h.used
    have hsmall := h.rest
    rw [← hend, hsize, hused] at hwhole hsmall
    rw [hused] at hblocks
    rw [hkb, show 4 * u % 65536 = 4 * (u - t) by omega] at hax hdx
    refine ⟨fun hpos => ?_, fun hpos hfull hgrant => ?_, ?_⟩
    · rw [hax] at hpos ⊢
      rw [grants_iff hp hpos (by omega), pageBytes_kb ⟨u - t, by simp only [PM_PAGE]; omega⟩,
        show 4 * (u - t) * 1024 = 4096 * u - 4096 * t by omega]
      exact hwhole
    · rw [hax, grants_iff hp (by omega) (by omega)] at hgrant
      obtain ⟨a, hgap⟩ := hgrant
      have hroom := gap_le_free hp hgap
      have hmore := le_pageBytes ((4 * (u - t) + 1) * 1024)
      omega
    · rw [hdx, hrest]
      omega

end Query

/-! ### Blocks in use -/

/-- Memory of 81 MB and 128 KB, with 64 MB of it in use in two blocks. -/
def heldHigh : Machine :=
  { bootMachine with
    totalPages := 0x5120
    pmInitialised := true
    pmEnd := 0x5120000
    pmBusy := [⟨0x2120000, 0x3000000⟩, ⟨0x120000, 0x1000000⟩] }

theorem heldHigh_ok : PmOk heldHigh where
  packed := .pair ⟨by decide, by decide, by decide, by decide, by decide⟩
    ⟨by decide, by decide, by decide, by decide, by decide⟩ (by decide)
  high := by decide
  fresh h := by cases h

/-- The 16 MB between the blocks are what function 08h reports. -/
theorem xmsQuery_iff_held : QueryRight xmsStart heldHigh := by
  refine (xmsQuery_iff xmsStart heldHigh_ok fun _ => by decide).mpr ⟨?_, ?_, ?_, ?_, 0x1120000, ?_⟩
  · decide
  · decide
  · decide
  · decide
  · refine ⟨by decide, by decide, fun b hb => ?_⟩
    rcases List.mem_cons.mp hb with rfl | hb
    · exact Or.inr (by decide)
    · obtain rfl := List.mem_singleton.mp hb
      exact Or.inl (by decide)

/-- With three pages in use 15232 KB are reported, and 15220 KB are free. -/
theorem query_ignores_blocks : ¬ ∀ (x : Xms) (m : Machine), PmOk m → Configured m → QueryRight x m := by
  intro h
  have hfree := (h xmsStart gapped gapped_ok fun _ => by decide).free
  have hdx : (xms_08 gapped).dx = 15232 := by decide +kernel
  have hleft : min (freeBytes gapped / 1024) 0xFFFF = 15220 := by decide +kernel
  omega

end Dosiz.XmsHandles
