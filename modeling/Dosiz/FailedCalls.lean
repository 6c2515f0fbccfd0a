/-
  Dosiz/FailedCalls.lean
  ======================
  **Failing allocation calls** (INT 31h AX=0000, 0001, 0002, 000A, 000D, 0100, 0102, 0501, 0502
  and 0503 of `bridge.cc`).

  Some of them take one resource before they know that the second is there.  AX=0100 takes the
  DOS block before it looks for a slot, and gives it back; AX=0501 tries the protected-mode arena
  before the MCB chain.  `failedCall_keeps`: with CF=1 all ten leave the allocated blocks of both
  arenas, the LDT, its bitmap and the remembered conversions as they were.  Only the carry bit
  that `set_cf` puts into the FLAGS image may fall on the LDT.
-/
import Dosiz.ChildBlocks
import Dosiz.LdtSlots
import Dosiz.Fragments

namespace Dosiz

open ByteMemory Machine Mcb PmArena ChildBlocks

/-- The calls that take or give back descriptors and memory blocks. -/
inductive AllocCall where
  | ax0000 | ax0001 | ax0002 | ax000A | ax000D | ax0100 | ax0102 | ax0501 | ax0502 | ax0503
deriving DecidableEq, Repr

def AllocCall.serve : AllocCall → Machine → Reply
  | .ax0000 => int31_0000
  | .ax0001 => int31_0001
  | .ax0002 => int31_0002
  | .ax000A => int31_000A
  | .ax000D => int31_000D
  | .ax0100 => int31_0100
  | .ax0102 => int31_0102
  | .ax0501 => int31_0501
  | .ax0502 => int31_0502
  | .ax0503 => int31_0503

/-- The bytes of the LDT. -/
def ldtBytes : Set Nat := Set.Ico LDT_BASE (LDT_BASE + LDT_BYTES)

/-- The MCB chain, also the one the first call will make, has the same allocated blocks. -/
def SameBlocks (m r : Machine) : Prop :=
  ∀ bs, Chain (mcbReady m).mem bs →
    ∃ bs', Chain (mcbReady r).mem bs' ∧ ∀ q b, Allocated bs' q b ↔ Allocated bs q b

/-- Nothing was taken and nothing was given back. -/
structure NothingTaken (m r : Machine) : Prop where
  inUse : r.ldtInUse = m.ldtInUse
  conv : r.seg2descCache = m.seg2descCache
  busy : r.pmBusy.Perm m.pmBusy
  low : AgreesOff firstMegabyte m.mem r.mem
  blocks : SameBlocks m r

section Steps

variable {m m' r : Machine} {s n : Nat}

theorem NothingTaken.trans (h : NothingTaken m m') (h' : NothingTaken m' r) : NothingTaken m r where
  inUse := h'.inUse.trans h.inUse
  conv := h'.conv.trans h.conv
  busy := h'.busy.trans h.busy
  low := h.low.trans h'.low
  blocks := by
    intro bs hc
    obtain ⟨bs', hc', hsame⟩ := h.blocks bs hc
    obtain ⟨bs'', hc'', hsame'⟩ := h'.blocks bs' hc'
    exact ⟨bs'', hc'', fun q b => (hsame' q b).trans (hsame q b)⟩

/-- The chain is in memory. -/
theorem sameBlocks_of_mem (hmem : r.mem = m.mem) (hinit : r.mcbInitialised = m.mcbInitialised) :
    SameBlocks m r := by
  intro bs hc
  have hready : (mcbReady r).mem = (mcbReady m).mem := by
    unfold mcbReady
    rw [hinit, hmem]
    split
    · exact hmem
    · rfl
  rw [← hready] at hc
  exact ⟨bs, hc, fun _ _ => Iff.rfl⟩

theorem NothingTaken.refl (m : Machine) : NothingTaken m m :=
  ⟨rfl, rfl, .refl _, .refl _ _, sameBlocks_of_mem rfl rfl⟩

/-- The error code. -/
theorem nothingTaken_setR16 (m : Machine) (g : Reg) (v : Nat) : NothingTaken m (m.setR16 g v) where
  inUse := rfl
  conv := rfl
  busy := .refl _
  low := .refl _ _
  blocks := sameBlocks_of_mem rfl rfl

theorem nothingTaken_setR16s (m : Machine) (rs : List (Reg × Nat)) : NothingTaken m (m.setR16s rs) := by
  induction rs generalizing m with
  | nil => exact .refl m
  | cons rv rs ih => exact (nothingTaken_setR16 m rv.1 rv.2).trans (ih _)

theorem nothingTaken_failWith {code : Nat} {reply : Reply} (h : reply = some (failWith m code))
    (hr : reply = some (r, true)) : NothingTaken m r := by
  rw [h] at hr
  cases hr
  exact nothingTaken_setR16 m .eax code

/-! ### The allocators -/

theorem mcbReady_ready (m : Machine) : mcbReady (mcbReady m) = mcbReady m :=
  mcbReady_of_init (mcbReady_init m)

theorem mcbAllocate_ready (m : Machine) (need : Nat) : mcbAllocate (mcbReady m) need = mcbAllocate m need := by
  unfold mcbAllocate
  rw [mcbReady_ready]

theorem mcbReady_ldtInUse (m : Machine) : (mcbReady m).ldtInUse = m.ldtInUse ∧
    (mcbReady m).seg2descCache = m.seg2descCache ∧ (mcbReady m).pmBusy = m.pmBusy := by
  rcases mcbReady_cases m with ⟨-, hr⟩ | ⟨-, hr⟩ <;> rw [hr] <;> exact ⟨rfl, rfl, rfl⟩

/-- What `mcb_allocate` leaves alone. -/
theorem mcbAllocate_tables {a : Machine} {l : Nat} (h : mcbAllocate m n = some (a, s, l)) :
    a.ldtInUse = m.ldtInUse ∧ a.seg2descCache = m.seg2descCache ∧ a.pmBusy = m.pmBusy ∧
      a.mcbInitialised = true := by
  obtain ⟨huse, hconv, hbusy⟩ := mcbReady_ldtInUse m
  have hinit := mcbReady_init m
  unfold mcbAllocate at h
  dsimp only at h
  split at h
  · cases h
  · cases h
    exact ⟨huse, hconv, hbusy, hinit⟩

/-- An allocation that fails at most sets up the chain. -/
theorem nothingTaken_mcbAllocate {a : Machine} {l : Nat} (h : mcbAllocate m n = some (a, 0, l)) :
    NothingTaken m a := by
  obtain ⟨huse, hconv, hbusy, -⟩ := mcbAllocate_tables h
  refine ⟨huse, hconv, hbusy ▸ .refl _, mcbAllocate_low h, fun bs hc => ?_⟩
  have hnone : a = mcbReady m := by
    have hready := (mcbAllocate_ready m n).trans h
    exact mcbAllocate_none (mcbReady_init m) hc hready
  rw [hnone, mcbReady_ready]
  exact ⟨bs, hc, fun _ _ => Iff.rfl⟩

/-- A DOS block taken and given back. -/
theorem nothingTaken_rollback {a : Machine} {l : Nat} (h : mcbAllocate m n = some (a, s, l)) (hs : s ≠ 0) :
    NothingTaken m (mcbFree a s).1 := by
  obtain ⟨huse, hconv, hbusy, hinit⟩ := mcbAllocate_tables h
  have hfree : (mcbFree a s).1 = a.setMem (mcbFree a s).1.mem := by
    rw [mcbFree, if_pos hinit]
    rfl
  refine ⟨?_, ?_, ?_, (mcbAllocate_low h).trans (mcbFree_low a s), fun bs hc => ?_⟩
  · rw [hfree]
    exact huse
  · rw [hfree]
    exact hconv
  · rw [hfree]
    exact hbusy ▸ .refl _
  · have htaken : mcbAllocate (mcbReady m) n = some (a, s, l) := by
      rw [mcbAllocate_ready]
      exact h
    obtain ⟨⟨bs', b, ht, -⟩, -⟩ := mcbAllocate_taken (mcbReady_init m) hc htaken hs
    rw [mcbReady_of_init (by rw [hfree]; exact hinit)]
    exact ht.freed.1

/-- `mcb_free` fails before it writes. -/
theorem mcbFree_refused (h : (mcbFree m s).2 = false) : (mcbFree m s).1 = m := by
  have hin : (mcbFreeIn m.mem s).2 = false → (mcbFreeIn m.mem s).1 = m.mem := by
    unfold mcbFreeIn
    dsimp only
    split_ifs
    · exact fun _ => rfl
    · exact False.elim
    · exact False.elim
    · exact False.elim
  unfold mcbFree at h ⊢
  split_ifs at h ⊢
  · show { m with mem := (mcbFreeIn m.mem s).1 } = m
    rw [hin h]
  · rfl

/-- `mcb_resize` fails before it writes. -/
theorem mcbResize_refused (h : (mcbResize m s n).2.1 ≠ n) : (mcbResize m s n).1 = m := by
  have hin : (mcbResizeIn m.mem s n).2.1 ≠ n → (mcbResizeIn m.mem s n).1 = m.mem := by
    unfold mcbResizeIn
    dsimp only
    split_ifs
    · exact fun _ => rfl
    · exact fun _ => rfl
    · exact fun h => absurd rfl h
    · exact fun _ => rfl
    · exact fun _ => rfl
    · exact fun _ => rfl
    · exact fun h => absurd rfl h
  unfold mcbResize at h ⊢
  split_ifs at h ⊢
  · show { m with mem := (mcbResizeIn m.mem s n).1 } = m
    rw [hin h]
  · rfl

theorem nothingTaken_pmInit (m : Machine) : NothingTaken m (pmInit m) := by
  unfold pmInit
  split
  · exact .refl m
  · exact ⟨rfl, rfl, .refl _, .refl _ _, sameBlocks_of_mem rfl rfl⟩

theorem nothingTaken_pmAlloc (h : (pmAlloc m n).2 = 0) : NothingTaken m (pmAlloc m n).1 := by
  refine (nothingTaken_pmInit m).trans ?_
  unfold pmAlloc at h ⊢
  dsimp only at h ⊢
  split_ifs at h ⊢ with hnone hwrap hfound
  · exact .refl _
  · exact .refl _
  · exact ⟨rfl, rfl, List.perm_insertionSort _ _, .refl _ _, sameBlocks_of_mem rfl rfl⟩
  · exact absurd h hfound

theorem pmFree_refused (h : (pmFree m s).2 = false) : (pmFree m s).1 = m := by
  have hnone : ∀ b ∈ m.pmBusy, ¬ decide (b.base = s) = true := by
    intro b hb hbase
    rw [pmFree, List.any_eq_false] at h
    exact h b hb hbase
  rw [pmFree, List.eraseP_of_forall_not hnone]

theorem nothingTaken_pmResize (h : (pmResize m s n).2 = false) : NothingTaken m (pmResize m s n).1 := by
  have hinit : (pmResize m s n).1 = pmInit m := by
    unfold pmResize at h ⊢
    dsimp only at h ⊢
    rcases hfind : pmFind s (pmInit m).pmBusy with _ | ⟨pre, me, post⟩
    · split_ifs <;> rfl
    · rw [hfind] at h
      dsimp only at h ⊢
      split_ifs at h ⊢
      · rfl
      · rfl
      · rfl
      · rfl
  rw [hinit]
  exact nothingTaken_pmInit m

end Steps

/-! ### The calls -/

section Calls

variable {m r : Machine}

/-- The calls on the LDT find out that they fail before they change anything. -/
theorem int31_0000_failed (h : int31_0000 m = some (r, true)) : NothingTaken m r := by
  unfold int31_0000 at h
  dsimp only at h
  split_ifs at h
  · exact nothingTaken_failWith rfl h
  · exact nothingTaken_failWith rfl h
  · cases h

theorem int31_0001_failed (h : int31_0001 m = some (r, true)) : NothingTaken m r := by
  unfold int31_0001 at h
  split at h
  · exact nothingTaken_failWith rfl h
  · cases h

theorem int31_0002_failed (h : int31_0002 m = some (r, true)) : NothingTaken m r := by
  unfold int31_0002 at h
  dsimp only at h
  split_ifs at h
  · cases h
  · exact nothingTaken_failWith rfl h
  · cases h

theorem int31_000A_failed (h : int31_000A m = some (r, true)) : NothingTaken m r := by
  unfold int31_000A at h
  dsimp only at h
  split_ifs at h
  · exact nothingTaken_failWith rfl h
  · exact nothingTaken_failWith rfl h
  · cases h

theorem int31_000D_failed (h : int31_000D m = some (r, true)) : NothingTaken m r := by
  unfold int31_000D at h
  dsimp only at h
  split_ifs at h
  · exact nothingTaken_failWith rfl h
  · exact nothingTaken_failWith rfl h
  · cases h

theorem int31_0100_failed (h : int31_0100 m = some (r, true)) : NothingTaken m r := by
  unfold int31_0100 at h
  split_ifs at h with hbx
  · exact nothingTaken_failWith rfl h
  · rcases halloc : mcbAllocate m m.bx with _ | ⟨a, seg, largest⟩
    · rw [halloc] at h
      cases h
    · rw [halloc] at h
      dsimp only at h
      split_ifs at h with hseg hidx
      · cases h
        subst hseg
        exact (nothingTaken_mcbAllocate halloc).trans (nothingTaken_setR16s a _)
      · -- the LDT is full: the block just allocated is freed again
        exact (nothingTaken_rollback halloc hseg).trans (nothingTaken_failWith rfl h)
      · cases h

theorem int31_0102_failed (h : int31_0102 m = some (r, true)) : NothingTaken m r := by
  unfold int31_0102 at h
  rcases hslot : dosBlockSlot m m.bx with _ | idx
  · rw [hslot] at h
    exact nothingTaken_failWith rfl h
  · rw [hslot] at h
    dsimp only at h
    split_ifs at h with hgot
    · cases h
      rw [mcbResize_refused hgot]
      exact nothingTaken_setR16s m _
    · cases h

theorem int31_0501_failed (h : int31_0501 m = some (r, true)) : NothingTaken m r := by
  unfold int31_0501 at h
  dsimp only at h
  split_ifs at h with hbytes hlinear hparas
  · exact nothingTaken_failWith rfl h
  · cases h
  · have hpm := nothingTaken_pmAlloc (not_not.mp hlinear)
    rcases halloc : mcbAllocate (pmAlloc m (sizeArg m)).1 (bytesToParas (sizeArg m)) with _ | ⟨a, seg, largest⟩
    · rw [halloc] at h
      cases h
    · rw [halloc] at h
      dsimp only at h
      split_ifs at h with hseg
      · cases h
      · obtain rfl := not_not.mp hseg
        exact hpm.trans ((nothingTaken_mcbAllocate halloc).trans (nothingTaken_failWith rfl h))
  · exact (nothingTaken_pmAlloc (not_not.mp hlinear)).trans (nothingTaken_failWith rfl h)

theorem int31_0502_failed (h : int31_0502 m = some (r, true)) : NothingTaken m r := by
  unfold int31_0502 at h
  dsimp only at h
  split_ifs at h with hsi hrange hfree hfree
  · exact nothingTaken_failWith rfl h
  · cases h
  · rw [mcbFree_refused (Bool.eq_false_iff.mpr hfree)] at h
    exact nothingTaken_failWith rfl h
  · cases h
  · rw [pmFree_refused (Bool.eq_false_iff.mpr hfree)] at h
    exact nothingTaken_failWith rfl h

theorem int31_0503_failed (h : int31_0503 m = some (r, true)) : NothingTaken m r := by
  unfold int31_0503 at h
  dsimp only at h
  split_ifs at h with hbytes hsi hrange hparas hgot hok
  · exact nothingTaken_failWith rfl h
  · exact nothingTaken_failWith rfl h
  · exact nothingTaken_failWith rfl h
  · rw [mcbResize_refused hgot] at h
    exact nothingTaken_failWith rfl h
  · cases h
  · cases h
  · exact (nothingTaken_pmResize (Bool.eq_false_iff.mpr hok)).trans (nothingTaken_failWith rfl h)

theorem allocCall_failed {c : AllocCall} (h : c.serve m = some (r, true)) : NothingTaken m r := by
  cases c with
  | ax0000 => exact int31_0000_failed h
  | ax0001 => exact int31_0001_failed h
  | ax0002 => exact int31_0002_failed h
  | ax000A => exact int31_000A_failed h
  | ax000D => exact int31_000D_failed h
  | ax0100 => exact int31_0100_failed h
  | ax0102 => exact int31_0102_failed h
  | ax0501 => exact int31_0501_failed h
  | ax0502 => exact int31_0502_failed h
  | ax0503 => exact int31_0503_failed h

/-- From `m` to `m'` the allocated blocks of the MCB chain and of the protected-mode arena, the LDT,
    its bitmap and the remembered conversions are the same; `set_cf` has edited the FLAGS image. -/
structure AsBefore (m m' : Machine) : Prop where
  inUse : m'.ldtInUse = m.ldtInUse
  conv : m'.seg2descCache = m.seg2descCache
  busy : m'.pmBusy.Perm m.pmBusy
  ldt : ∀ x ∈ ldtBytes, m'.mem x = m.mem x ∨
    (x = flagsAddr m' ∧ (m'.mem x).toNat / 2 = (m.mem x).toNat / 2)
  blocks : ∀ bs, Chain (mcbReady m).mem bs → ∃ bs', (∀ q b, Allocated bs' q b ↔ Allocated bs q b) ∧
    (flagsAddr m' ∉ headerBytes bs' → Chain (mcbReady m').mem bs')

/-- **A failing call takes nothing.**  Whatever the state and the registers, with CF=1 the ten calls
    leave what is allocated as it was. -/
theorem failedCall_keeps {c : AllocCall} (h : c.serve m = some (r, true)) :
    finish (c.serve m) = some (setCf r true) ∧ AsBefore m (setCf r true) := by
  have hn := allocCall_failed h
  refine ⟨by rw [h]; rfl, hn.inUse, hn.conv, hn.busy, fun x hx => ?_, fun bs hc => ?_⟩
  · have hhigh : x ∉ firstMegabyte := by
      simp only [ldtBytes, LDT_BASE, Set.mem_Ico] at hx
      simp only [Set.mem_Iio]
      omega
    have hkept : r.mem x = m.mem x := hn.low x hhigh
    by_cases hflags : x = flagsAddr r
    · right
      refine ⟨hflags, ?_⟩
      rw [hflags, setCf_byte, ← hflags, hkept]
    · left
      rw [setCf_off r true x hflags, hkept]
  · obtain ⟨bs', hc', hsame⟩ := hn.blocks bs hc
    refine ⟨bs', hsame, fun hclear => ?_⟩
    rcases mcbReady_cases r with ⟨hi, hr⟩ | ⟨hi, hr⟩
    · rw [hr] at hc'
      rw [mcbReady_of_init (m := setCf r true) hi]
      refine hc'.frame (setCf_off r true) fun x hx => ?_
      rw [Set.mem_singleton_iff.mp hx]
      exact hclear
    · rw [hr] at hc'
      have hfresh := mcbInit_chain (setCf r true).mem
      have hready : mcbReady (setCf r true) = { setCf r true with
          mem := mcbInit (setCf r true).mem, mcbInitialised := true } := by
        rw [mcbReady, if_neg (by rw [show (setCf r true).mcbInitialised = false from hi]; decide)]
      rw [hready, hc'.unique (mcbInit_chain r.mem)]
      exact hfresh

end Calls

/-- A 16-bit client with its stack at `ss`, and AX, BX and CX zero. -/
def stackAt (ss : BitVec 32) : Machine :=
  { bootMachine with cpu := { arenaCpu 0 ss with pmode := true } }

/-- The client asks for a paragraph, and every slot of the LDT is in use. -/
def crowded : Machine :=
  { bootMachine with
    cpu := { arenaCpu 1 0x30000 with pmode := true }
    ldtInUse := fun _ => true }

/-- The paragraph is allocated, and given back when there is no slot for it. -/
theorem failedCall_keeps_crowded : (mcbAllocate crowded 1).map (·.2.1) = some 0x2001 ∧ ∃ r,
    finish (AllocCall.ax0100.serve crowded) = some (setCf r true) ∧ AsBefore crowded (setCf r true) := by
  have hfails : (AllocCall.ax0100.serve crowded).map (·.2) = some true := by decide +kernel
  obtain ⟨⟨r, cf⟩, hserve, rfl⟩ := Option.map_eq_some_iff.mp hfails
  exact ⟨by decide +kernel, r, failedCall_keeps (c := .ax0100) hserve⟩

/-- With the stack on the LDT the carry bit of the answer changes a descriptor. -/
theorem failedCall_edits_ldt : ∃ r, AllocCall.ax0000.serve (stackAt 0x104000) = some (r, true) ∧
    LDT_BASE + 4 ∈ ldtBytes ∧
    (setCf r true).mem (LDT_BASE + 4) ≠ (stackAt 0x104000).mem (LDT_BASE + 4) :=
  ⟨(failWith (stackAt 0x104000) 0x8021).1, rfl, ⟨by decide, by decide⟩, by decide +kernel⟩

end Dosiz
