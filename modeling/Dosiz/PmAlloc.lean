/-
  Dosiz/PmAlloc.lean
  ==================
  **`pm_alloc` is first fit.**

  `Gap m a r` says that `r` bytes from `a` on lie in the protected-mode arena and clear of
  every block in use.  For every request `pm_alloc` succeeds when there is a gap for the
  request rounded up to pages, at the lowest place there is; it adds just that block,
  clears it and writes nothing else (`pmAlloc_exact`).
-/
import Mathlib.Order.Bounds.Basic
import Dosiz.PmArena

namespace Dosiz.PmArena

open ByteMemory Extents

/-- The bytes of a request, in whole pages. -/
def pageBytes (bytes : Nat) : Nat := (bytes + (PM_PAGE - 1)) / PM_PAGE * PM_PAGE

/-- The `r` bytes from `a` on are in the arena and in no block. -/
structure Gap (m : Machine) (a r : Nat) : Prop where
  low : PM_ARENA_START ≤ a
  high : a + r ≤ (pmInit m).pmEnd
  clear : ∀ b ∈ m.pmBusy, Apart b ⟨a, r⟩

theorem pageBytes_pos {bytes : Nat} (h : 0 < bytes) : 0 < pageBytes bytes := by
  simp only [pageBytes, PM_PAGE]
  omega

theorem le_pageBytes (bytes : Nat) : bytes ≤ pageBytes bytes := by
  simp only [pageBytes, PM_PAGE]
  omega

/-- The sum in `pm_round_up` wraps only for requests that no arena has room for. -/
theorem pmRoundUp_eq {bytes : Nat} (h : bytes ≤ 0xFFFFF000) : pmRoundUp bytes = pageBytes bytes := by
  simp only [pmRoundUp, pageBytes, lin, PM_PAGE]
  omega

theorem Gap.bytes_le {m : Machine} (h : PmOk m) {a bytes : Nat} (hgap : Gap m a (pageBytes bytes)) :
    bytes ≤ 0xFFFFF000 := by
  have hlow := hgap.low
  have hhigh := hgap.high
  have hend := (pmInit_ok h).high
  have hle := le_pageBytes bytes
  simp only [PM_ARENA_START] at hlow
  omega

section Place

variable {hi rounded : Nat} {bs : List PmBlock}

/-- The lowest place clear of a packed list in order, when there is one in the range, is the one
    `pm_alloc` settles on; otherwise it settles on none. -/
theorem pmPlace_least (hhi : hi < 4294967296) (hp : Packed PM_ARENA_START hi PM_PAGE bs)
    (hs : bs.Pairwise (fun a b => a.base ≤ b.base)) (hr : 0 < rounded) {a : Nat}
    (hlow : PM_ARENA_START ≤ a) (hhigh : a + rounded ≤ hi) (hclear : ∀ f ∈ bs, Apart f ⟨a, rounded⟩) :
    pmPlace hi rounded bs ≠ 0 ∧ pmPlace hi rounded bs ≤ a := by
  obtain ⟨hcursor, hzero, hfound⟩ := pmScan_eq_firstGap rounded hhi hp (show PM_ARENA_START ≠ 0 by decide)
  have hbase : ∀ e ∈ bs, PM_ARENA_START ≤ e.base := fun e he => (hp.fits e he).low
  have hstart := (firstGap_spec rounded hp hs hbase).1
  have hleast := firstGap_least rounded hp hs hbase a hlow hclear
  have hpos : 0 < PM_ARENA_START := by decide
  unfold pmPlace
  dsimp only
  rw [hcursor]
  by_cases hgap : (firstGap rounded PM_ARENA_START bs).2 = true
  · have hne : (pmScan rounded PM_ARENA_START bs).2 ≠ 0 := fun h0 => by
      rw [hzero.mp h0] at hgap
      cases hgap
    rw [if_neg fun h => hne h.1, hfound hgap]
    exact ⟨by omega, hleast⟩
  · -- no gap below a block, so the place is behind them all
    have hgap : (pmScan rounded PM_ARENA_START bs).2 = 0 ∧ (firstGap rounded PM_ARENA_START bs).1 < hi ∧
        rounded ≤ hi - (firstGap rounded PM_ARENA_START bs).1 :=
      ⟨hzero.mpr (by simpa using hgap), by omega, by omega⟩
    rw [if_pos hgap]
    exact ⟨by omega, hleast⟩

end Place

/-- What `pm_alloc` does with a request: the place is the lowest with room for it, the block is
    recorded and its bytes are cleared, and nothing else is written.  A refusal changes neither
    memory nor the blocks. -/
structure PmAllocExact (m : Machine) (bytes : Nat) : Prop where
  granted : (pmAlloc m bytes).2 ≠ 0 ↔ ∃ a, Gap m a (pageBytes bytes)
  lowest : (pmAlloc m bytes).2 ≠ 0 → PM_PAGE ∣ (pmAlloc m bytes).2 ∧
    IsLeast { a | Gap m a (pageBytes bytes) } (pmAlloc m bytes).2
  recorded : (pmAlloc m bytes).2 ≠ 0 →
    (pmAlloc m bytes).1.pmBusy.Perm (m.pmBusy ++ [⟨(pmAlloc m bytes).2, pageBytes bytes⟩])
  cleared : (pmAlloc m bytes).2 ≠ 0 → ∀ x, (pmAlloc m bytes).2 ≤ x →
    x < (pmAlloc m bytes).2 + pageBytes bytes → readb (pmAlloc m bytes).1.mem x = 0
  writes : (pmAlloc m bytes).2 ≠ 0 → AgreesOff
    (Set.Ico (pmAlloc m bytes).2 ((pmAlloc m bytes).2 + pageBytes bytes)) m.mem (pmAlloc m bytes).1.mem
  refused : (pmAlloc m bytes).2 = 0 →
    (pmAlloc m bytes).1.pmBusy.Perm m.pmBusy ∧ (pmAlloc m bytes).1.mem = m.mem

theorem readb_fill {mem : Mem} {a n v x : Nat} (h₁ : a ≤ x) (h₂ : x < a + n) :
    readb (fill mem a n v) x = v % 256 := by
  rw [readb, fill, if_pos ⟨h₁, h₂⟩]
  rfl

/-- The two outcomes of `pm_alloc`. -/
theorem pmAlloc_cases {m : Machine} (h : PmOk m) {bytes : Nat} (h₀ : 0 < bytes) (hb : bytes < 4294967296) :
    (∃ a busy, pmAlloc m bytes = ({ pmInit m with
          pmBusy := busy ++ [⟨a, pageBytes bytes⟩], mem := fill (pmInit m).mem a (pageBytes bytes) 0 }, a) ∧
        busy.Perm m.pmBusy ∧ Gap m a (pageBytes bytes) ∧ PM_PAGE ∣ a ∧
        ∀ b, Gap m b (pageBytes bytes) → a ≤ b) ∨
      (∃ busy, pmAlloc m bytes = ({ pmInit m with pmBusy := busy }, 0) ∧ busy.Perm m.pmBusy ∧
        ∀ a, ¬ Gap m a (pageBytes bytes)) := by
  have hi := pmInit_ok h
  have hperm : (sortByBase (pmInit m).pmBusy).Perm m.pmBusy := by
    rw [pmInit_busy]
    exact sortByBase_perm m.pmBusy
  have hpk := hi.packed.perm (sortByBase_perm (pmInit m).pmBusy).symm
  have hsorted := sortByBase_sorted (pmInit m).pmBusy
  have hpages := le_pageBytes bytes
  unfold pmAlloc
  dsimp only
  by_cases h₁ : bytes = 0 ∨ (pmInit m).pmEnd ≤ PM_ARENA_START
  · right
    refine ⟨(pmInit m).pmBusy, if_pos h₁, by rw [pmInit_busy], fun a ha => ?_⟩
    have hlow := ha.low
    have hhigh := ha.high
    omega
  rw [if_neg h₁]
  by_cases h₂ : pmRoundUp bytes < bytes
  · right
    refine ⟨(pmInit m).pmBusy, if_pos h₂, by rw [pmInit_busy], fun a ha => ?_⟩
    rw [pmRoundUp_eq (ha.bytes_le h)] at h₂
    omega
  have heq := pmRoundUp_eq (le_of_le_pmRoundUp hb h₂)
  rw [if_neg h₂, heq]
  have hleast := fun a (ha : Gap m a (pageBytes bytes)) => pmPlace_least hi.high hpk hsorted
    (pageBytes_pos h₀) ha.low ha.high fun f hf => ha.clear f (hperm.mem_iff.mp hf)
  by_cases h₃ : pmPlace (pmInit m).pmEnd (pageBytes bytes) (sortByBase (pmInit m).pmBusy) = 0
  · right
    exact ⟨_, if_pos h₃, hperm, fun a ha => (hleast a ha).1 h₃⟩
  · left
    obtain ⟨hfit, hapart⟩ := pmPlace_spec hi.high hpk hsorted (heq ▸ pmRoundUp_dvd bytes)
      (pageBytes_pos h₀) h₃
    refine ⟨_, _, if_neg h₃, hperm, ⟨hfit.low, hfit.high, fun b hb => ?_⟩, hfit.base_dvd,
      fun b hb => (hleast b hb).2⟩
    exact hapart b (hperm.mem_iff.mpr hb)

theorem Gap.pos {m : Machine} {a r : Nat} (h : Gap m a r) : a ≠ 0 := by
  have hlow := h.low
  simp only [PM_ARENA_START] at hlow
  omega

theorem pmAlloc_granted {m : Machine} (h : PmOk m) {bytes : Nat} (h₀ : 0 < bytes) (hb : bytes < 4294967296) :
    (pmAlloc m bytes).2 ≠ 0 ↔ ∃ a, Gap m a (pageBytes bytes) := by
  rcases pmAlloc_cases h h₀ hb with ⟨a, busy, hcall, -, hgap, -, -⟩ | ⟨busy, hcall, -, hno⟩ <;> rw [hcall]
  · exact iff_of_true hgap.pos ⟨a, hgap⟩
  · exact iff_of_false (fun hne => hne rfl) fun ⟨a, ha⟩ => hno a ha

theorem pmAlloc_refused {m : Machine} (h : PmOk m) {bytes : Nat} (h₀ : 0 < bytes) (hb : bytes < 4294967296)
    (hz : (pmAlloc m bytes).2 = 0) : (pmAlloc m bytes).1.pmBusy.Perm m.pmBusy ∧ (pmAlloc m bytes).1.mem = m.mem := by
  rcases pmAlloc_cases h h₀ hb with ⟨a, busy, hcall, -, hgap, -, -⟩ | ⟨busy, hcall, hperm, -⟩ <;> rw [hcall] at hz ⊢
  · exact absurd hz hgap.pos
  · exact ⟨hperm, pmInit_mem m⟩

/-- **`pm_alloc` is first fit**, for every request and every list of blocks that is packed in the
    arena. -/
theorem pmAlloc_exact {m : Machine} (h : PmOk m) {bytes : Nat} (h₀ : 0 < bytes)
    (hb : bytes < 4294967296) : PmAllocExact m bytes := by
  refine ⟨pmAlloc_granted h h₀ hb, ?_, ?_, ?_, ?_, pmAlloc_refused h h₀ hb⟩
  all_goals
    rcases pmAlloc_cases h h₀ hb with ⟨a, busy, hcall, hperm, hgap, hdvd, hleast⟩ | ⟨busy, hcall, -, -⟩ <;> rw [hcall]
  · exact fun _ => ⟨hdvd, hgap, hleast⟩
  · exact fun hne => absurd rfl hne
  · exact fun _ => hperm.append_right _
  · exact fun hne => absurd rfl hne
  · exact fun _ x h₁ h₂ => readb_fill h₁ h₂
  · exact fun hne => absurd rfl hne
  · intro _
    rw [← pmInit_mem m]
    exact fill_off _ _ _ _
  · exact fun hne => absurd rfl hne

/-- An arena of 16 MB with a page in use at its start and two pages three pages further up. -/
def gapped : Machine :=
  { bootMachine with
    pmInitialised := true
    pmEnd := 0x1000000
    pmBusy := [⟨0x124000, 0x2000⟩, ⟨0x120000, 0x1000⟩] }

theorem gapped_ok : PmOk gapped where
  packed := .pair ⟨by decide, by decide, by decide, by decide, by decide⟩
    ⟨by decide, by decide, by decide, by decide, by decide⟩ (by decide)
  high := by decide
  fresh h := by cases h

theorem pmAlloc_exact_gapped : PmAllocExact gapped 0x2800 :=
  pmAlloc_exact gapped_ok (by decide) (by decide)

/-- The gap is just enough for the three pages of 2800h bytes. -/
example : (pmAlloc gapped 0x2800).2 = 0x121000 := by decide +kernel

end Dosiz.PmArena
