/-
  Dosiz/FreeMemory.lean
  =====================
  **What AX=0500 reports and what AX=0501 delivers.**

  AX=0500 walks the MCB chain on its own and reports the largest free block, in bytes.
  AX=0501 looks in the protected-mode arena first and in the MCB chain only then.  The
  report is a size AX=0501 delivers; it is the largest one exactly where the
  protected-mode arena has no gap for one byte more (`freeMemory_right_iff`).
-/
import Dosiz.Int31
import Dosiz.McbCalls
import Dosiz.PmAlloc

namespace Dosiz

open ByteMemory BlockChain Machine Mcb PmArena Extents

/-! ### The walk on a chain -/

theorem largestWalk_links {mem : Mem} (bs : List (Block Nat)) :
    ∀ {fuel p : Nat} (largest : Nat), Links (HeaderAt mem) false p bs → bs ≠ [] →
      p + span bs = MCB_ARENA_END → bs.length ≤ fuel →
      largestWalk mem fuel p largest = some (largestFree largest bs) := by
  induction bs with
  | nil =>
    intro _ _ _ _ h
    exact absurd rfl h
  | cons b bs ih =>
    intro fuel p largest hl _ hp hf
    cases fuel with
    | zero => simp at hf
    | succ fuel =>
      obtain ⟨hd, hrest⟩ := hl
      rw [span_cons] at hp
      have hlow : ¬ MCB_ARENA_END ≤ p := by omega
      rw [largestWalk, if_neg hlow, largestFree]
      dsimp only
      rw [hd.owner, hd.size]
      cases bs with
      | nil =>
        have ht : readb mem (p * 16) = 0x5A := by simpa using hd.type
        rw [if_pos ht]
        rfl
      | cons c bs =>
        have ht : readb mem (p * 16) ≠ 0x5A := by simp [hd.type]
        have hend : MCB_ARENA_END ≤ 65535 := by decide
        rw [span_cons] at hp
        rw [if_neg ht, Nat.mod_eq_of_lt (by omega)]
        refine ih _ hrest (by simp) ?_ (by simpa using hf)
        rw [span_cons]
        omega

theorem largestWalk_chain {mem : Mem} {bs : List (Block Nat)} (h : Chain mem bs) :
    largestWalk mem 65537 MCB_ARENA_START 0 = some (largestFree 0 bs) := by
  have htiles := h.tiles
  have hlen := length_le_span bs
  simp only [MCB_ARENA_START, MCB_ARENA_END] at htiles
  exact largestWalk_links bs 0 h.links h.ne_nil h.tiles (by omega)

/-- The linear address of the buffer. -/
def infoBuffer (m : Machine) : Nat := lin (esBuffer m .edi)

/-- The dwords after the first leave the first alone, also when their addresses wrap. -/
theorem readd_putDwords {a : Nat} (ds : List Nat) :
    ∀ {mem : Mem} {k : Nat}, 4 ≤ k → k + 4 * ds.length ≤ 0x30 →
      readd (putDwords mem (a + k) ds) (lin a) = readd mem (lin a) := by
  induction ds with
  | nil =>
    intro _ _ _ _
    rfl
  | cons d ds ih =>
    intro mem k hk hlen
    rw [List.length_cons] at hlen
    have hapart : lin a + 4 ≤ lin (a + k) ∨ lin (a + k) + 4 ≤ lin a := by
      simp only [lin]
      omega
    rw [putDwords, Nat.add_assoc, ih (by omega) (by omega), readd_writed_of_disjoint hapart]

theorem largestFree_lt {mem : Mem} {bs : List (Block Nat)} (h : Chain mem bs) :
    largestFree 0 bs < 0x8000 := by
  rcases largestFree_mem bs 0 with h₀ | ⟨b, hb, -, hs⟩
  · omega
  · have hlt := size_lt h hb
    omega

/-- The first dword AX=0500 writes. -/
theorem int31_0500_spec {m : Machine} {bs : List (Block Nat)} (hc : Chain (mcbReady m).mem bs) :
    ∃ r, int31_0500 m = some (r, false) ∧ readd r.mem (infoBuffer m) = largestFree 0 bs * 16 := by
  have hbuf : esBuffer (mcbReady m) .edi = esBuffer m .edi := by
    rcases mcbReady_cases m with ⟨-, hr⟩ | ⟨-, hr⟩ <;> rw [hr]
    rfl
  have hlt := largestFree_lt hc
  unfold int31_0500
  dsimp only
  rw [largestWalk_chain hc]
  dsimp only
  rw [hbuf]
  refine ⟨_, rfl, ?_⟩
  rw [putDwords, infoBuffer, readd_putDwords _ (by decide) (by simp), readd_writed,
    Nat.mod_eq_of_lt (by omega)]

/-! ### What AX=0501 delivers -/

theorem pmAlloc_ready {m : Machine} (h : PmOk m) {bytes : Nat} (h₀ : 0 < bytes)
    (hb : bytes < 4294967296) (hz : (pmAlloc m bytes).2 = 0) :
    (mcbReady (pmAlloc m bytes).1).mem = (mcbReady m).mem := by
  have hmem := (pmAlloc_refused h h₀ hb hz).2
  have hinit : (pmAlloc m bytes).1.mcbInitialised = m.mcbInitialised := by
    obtain ⟨mem, busy, hf⟩ := pmAlloc_frame m bytes
    rw [hf]
    unfold pmInit
    split_ifs <;> rfl
  unfold mcbReady
  rw [hinit]
  split_ifs
  · exact hmem
  · dsimp only
    rw [hmem]

/-- AX=0501 succeeds where the protected-mode arena has a gap for the pages, or else the chain a
    free block of the paragraphs. -/
theorem int31_0501_granted_iff {m : Machine} {bs : List (Block Nat)} (hp : PmOk m)
    (hc : Chain (mcbReady m).mem bs) (h₀ : 0 < sizeArg m) :
    (∃ r, int31_0501 m = some (r, false)) ↔ (∃ a, Gap m a (pageBytes (sizeArg m))) ∨
      (0 < bytesToParas (sizeArg m) ∧ ∃ b ∈ bs, b.tag = 0 ∧ bytesToParas (sizeArg m) ≤ b.size) := by
  have hgranted := pmAlloc_granted hp h₀ (sizeArg_lt m)
  unfold int31_0501
  dsimp only
  rw [if_neg (Nat.ne_of_gt h₀), ← hgranted]
  by_cases hz : (pmAlloc m (sizeArg m)).2 = 0
  swap
  · rw [if_pos hz]
    exact ⟨fun _ => Or.inl hz, fun _ => ⟨_, rfl⟩⟩
  rw [if_neg fun hne => hne hz]
  have hc' : Chain (mcbReady (pmAlloc m (sizeArg m)).1).mem bs := by
    rw [pmAlloc_ready hp h₀ (sizeArg_lt m) hz]
    exact hc
  by_cases hparas : 0 < bytesToParas (sizeArg m) ∧ bytesToParas (sizeArg m) ≤ 0xFFFF
  · rw [if_pos hparas]
    rcases mcbAllocate_firstFit hc' (bytesToParas (sizeArg m)) with
      ⟨pre, b, post, mem, largest, rfl, hfree, hneed, -, halloc, -⟩ | ⟨halloc, hno⟩
    · rw [halloc]
      dsimp only
      rw [if_pos (Nat.succ_ne_zero _)]
      exact ⟨fun _ => Or.inr ⟨hparas.1, b, by simp, hfree, hneed⟩, fun _ => ⟨_, rfl⟩⟩
    · rw [halloc]
      dsimp only
      rw [if_neg fun h => h rfl]
      constructor
      · rintro ⟨r, hr⟩
        cases hr
      · rintro (h | ⟨-, b, hb, ht, hle⟩)
        · exact absurd hz h
        · exact absurd (hno b hb ht) (Nat.not_lt.mpr hle)
  · rw [if_neg hparas]
    constructor
    · rintro ⟨r, hr⟩
      cases hr
    · rintro (h | ⟨hpos, b, hb, -, hle⟩)
      · exact absurd hz h
      · have hlt := size_lt hc hb
        exact absurd ⟨hpos, by omega⟩ hparas

/-! ### The report -/

/-- `m` with the size `n` in BX:CX. -/
def askFor (m : Machine) (n : Nat) : Machine := m.setR16s [(.ebx, n / 65536), (.ecx, n)]

/-- AX=0501 for `n` bytes, made at `m`, succeeds. -/
def Delivers (m : Machine) (n : Nat) : Prop := ∃ r, int31_0501 (askFor m n) = some (r, false)

/-- `n` is the size of the largest block AX=0501 can deliver. -/
structure LargestBlock (m : Machine) (n : Nat) : Prop where
  delivered : 0 < n → Delivers m n
  largest : ∀ k, n < k → k < 4294967296 → ¬ Delivers m k

theorem sizeArg_askFor (m : Machine) {n : Nat} (hn : n < 4294967296) : sizeArg (askFor m n) = n := by
  have hbx : (askFor m n).bx = n / 65536 % 65536 := by
    rw [askFor, setR16s, List.foldl_cons, List.foldl_cons, List.foldl_nil, bx,
      r16_setR16_of_ne _ _ (show Reg.ebx ≠ .ecx by decide), r16_setR16]
  have hcx : (askFor m n).cx = n % 65536 := r16_setR16 _ _ _
  rw [sizeArg, hbx, hcx]
  omega

theorem askFor_ready (m : Machine) (n : Nat) : (mcbReady (askFor m n)).mem = (mcbReady m).mem := by
  rw [askFor, setR16s, List.foldl_cons, List.foldl_cons, List.foldl_nil, mcbReady_setR16, mcbReady_setR16]
  rfl

theorem delivers_iff {m : Machine} {bs : List (Block Nat)} (hp : PmOk m)
    (hc : Chain (mcbReady m).mem bs) {n : Nat} (h₀ : 0 < n) (hn : n < 4294967296) :
    Delivers m n ↔ (∃ a, Gap m a (pageBytes n)) ∨
      (0 < bytesToParas n ∧ ∃ b ∈ bs, b.tag = 0 ∧ bytesToParas n ≤ b.size) := by
  have hsize := sizeArg_askFor m hn
  have hp' : PmOk (askFor m n) := ⟨hp.packed, hp.high, hp.fresh⟩
  have hend : (pmInit (askFor m n)).pmEnd = (pmInit m).pmEnd := by
    unfold pmInit
    rw [show (askFor m n).pmInitialised = m.pmInitialised from rfl]
    split_ifs <;> rfl
  have hgap : ∀ a r, Gap (askFor m n) a r ↔ Gap m a r := fun a r =>
    ⟨fun h => ⟨h.low, hend ▸ h.high, h.clear⟩, fun h => ⟨h.low, hend.symm ▸ h.high, h.clear⟩⟩
  have h := int31_0501_granted_iff hp' ((askFor_ready m n).symm ▸ hc) (by rw [hsize]; exact h₀)
  rw [hsize] at h
  simp only [hgap] at h
  exact h

/-- More bytes take no fewer pages. -/
theorem pageBytes_mono {n k : Nat} (h : n ≤ k) : pageBytes n ≤ pageBytes k := by
  simp only [pageBytes, PM_PAGE]
  omega

theorem PmArena.Gap.shrink {m : Machine} {a r r' : Nat} (h : Gap m a r) (hr : r' ≤ r) :
    Gap m a r' := by
  refine ⟨h.low, by have := h.high; omega, fun b hb => ?_⟩
  have hap := h.clear b hb
  simp only [Apart, Extent.stop] at hap ⊢
  omega

/-- **The report of AX=0500** is the size of the largest block AX=0501 can deliver if and only if the
    protected-mode arena has no gap for one byte more than the largest free MCB block. -/
theorem freeMemory_right_iff {m : Machine} {bs : List (Block Nat)} (hp : PmOk m)
    (hc : Chain (mcbReady m).mem bs) : ∃ r, int31_0500 m = some (r, false) ∧
      (LargestBlock m (readd r.mem (infoBuffer m)) ↔
        ¬ ∃ a, Gap m a (pageBytes (largestFree 0 bs * 16 + 1))) := by
  obtain ⟨r, hr, hN⟩ := int31_0500_spec hc
  have hlt := largestFree_lt hc
  refine ⟨r, hr, ?_⟩
  rw [hN]
  constructor
  · intro h hgap
    exact h.largest _ (Nat.lt_succ_self _) (by omega)
      ((delivers_iff hp hc (Nat.succ_pos _) (by omega)).mpr (Or.inl hgap))
  · intro hno
    constructor
    · intro hpos
      -- the largest free block is one of the chain, and just the paragraphs asked for
      have hparas : bytesToParas (largestFree 0 bs * 16) = largestFree 0 bs := by
        simp only [bytesToParas, lin]
        omega
      rcases largestFree_mem bs 0 with h₀ | ⟨b, hb, ht, hs⟩
      · omega
      · refine (delivers_iff hp hc hpos (by omega)).mpr (Or.inr ?_)
        rw [hparas]
        exact ⟨by omega, b, hb, ht, Nat.le_of_eq hs.symm⟩
    · intro k hk hk' hdel
      rcases (delivers_iff hp hc (Nat.zero_lt_of_lt hk) hk').mp hdel with ⟨a, hgap⟩ | ⟨hpos, b, hb, ht, hle⟩
      · exact hno ⟨a, hgap.shrink (pageBytes_mono hk)⟩
      · have hlargest := size_le_largestFree hb ht 0
        simp only [bytesToParas, lin] at hpos hle
        omega

/-- At start AX=0500 reports the 7FFF0h bytes of the MCB arena, and AX=0501 delivers 80000h. -/
theorem freeMemory_boot : ∃ r, int31_0500 bootMachine = some (r, false) ∧
    readd r.mem (infoBuffer bootMachine) = 0x7FFF0 ∧ ¬ LargestBlock bootMachine 0x7FFF0 := by
  have hc := chain_ready_of_fresh (m := bootMachine) rfl
  obtain ⟨r, hr, hN⟩ := int31_0500_spec hc
  refine ⟨r, hr, hN, fun h => h.largest 0x80000 (by decide) (by decide) ?_⟩
  refine (delivers_iff memOk_boot.pm hc (by decide) (by decide)).mpr (Or.inl ⟨0x120000, ?_⟩)
  exact ⟨by decide, by decide, fun b hb => absurd hb List.not_mem_nil⟩

/-- A program has 1000h paragraphs, and two blocks take the protected-mode arena up to a page between them. -/
def packedArenas : Machine :=
  { served with
    pmInitialised := true
    pmEnd := 0x1000000
    pmBusy := [⟨0x123000, 0xEDD000⟩, ⟨0x120000, 0x2000⟩] }

theorem packedArenas_ok : PmOk packedArenas where
  packed := .pair ⟨by decide, by decide, by decide, by decide, by decide⟩
    ⟨by decide, by decide, by decide, by decide, by decide⟩ (by decide)
  high := by decide
  fresh h := by cases h

/-- There the 6FFE0h bytes of the MCB arena are the largest block. -/
theorem freeMemory_right_iff_packed : ∃ r, int31_0500 packedArenas = some (r, false) ∧
    LargestBlock packedArenas (readd r.mem (infoBuffer packedArenas)) := by
  have hready : (mcbReady packedArenas).mem = served.mem := by
    rw [mcbReady_of_init (by decide +kernel)]
    rfl
  have hchain : Chain (mcbReady packedArenas).mem asked := by
    rw [hready]
    exact chain_asked
  obtain ⟨r, hr, hiff⟩ := freeMemory_right_iff packedArenas_ok hchain
  refine ⟨r, hr, hiff.mpr ?_⟩
  rintro ⟨a, hgap⟩
  have hneed : pageBytes (largestFree 0 asked * 16 + 1) = 0x70000 := by decide
  have hend : (pmInit packedArenas).pmEnd = 0x1000000 := rfl
  have hlow := hgap.low
  have hhigh := hgap.high
  have hfirst := hgap.clear ⟨0x120000, 0x2000⟩ (by simp [packedArenas])
  have hsecond := hgap.clear ⟨0x123000, 0xEDD000⟩ (by simp [packedArenas])
  rw [hneed] at hhigh hfirst hsecond
  rw [hend] at hhigh
  simp only [PM_ARENA_START, Apart, Extent.stop] at hlow hfirst hsecond
  omega

end Dosiz
