/-
  Dosiz/McbBlocks.lean
  ====================
  **Which blocks are allocated, and what happens to their bytes.**

  Memory determines the chain it holds (`Chain.unique`), so "the block at `q` is
  allocated" is a statement about memory.  For each edit the allocated blocks
  afterwards are given in terms of those before, and `Kept` says that a block
  allocated before and after has kept the bytes common to both.
-/
import Dosiz.McbOps

namespace Dosiz.Mcb

open ByteMemory BlockChain

theorem Chain.unique {mem : Mem} {bs bs' : List (Block Nat)} (h : Chain mem bs)
    (h' : Chain mem bs') : bs = bs' := by
  refine Links.unique ?_ h.ne_nil h'.ne_nil h.links h'.links
  intro q l l' b b' hd hd'
  have hl : l = l' := by
    have := hd.type.symm.trans hd'.type
    cases l <;> cases l' <;> simp_all
  have ht : b.tag = b'.tag := hd.owner.symm.trans hd'.owner
  have hs : b.size = b'.size := hd.size.symm.trans hd'.size
  cases b
  cases b'
  exact ⟨hl, by simp_all⟩

/-! ### The allocated blocks after an edit -/

/-- Blocks outside the edited stretch are the same before and after. -/
theorem allocated_edit {pre mid mid' post : List (Block Nat)} (hspan : span mid' = span mid)
    {q : Nat} {c : Block Nat}
    (hq : q < MCB_ARENA_START + span pre ∨ MCB_ARENA_START + span pre + span mid ≤ q) :
    Allocated (pre ++ mid' ++ post) q c ↔ Allocated (pre ++ mid ++ post) q c := by
  have hin : ∀ xs : List (Block Nat), span xs = span mid →
      (q, c) ∉ place (MCB_ARENA_START + span pre) xs := by
    intro xs hxs hm
    have hb := place_bounds hm
    omega
  simp only [Allocated, mem_place_append₃, hspan, hin mid' hspan, hin mid rfl, false_or]

/-- Inside the edited stretch an allocated block is one of the stretch. -/
theorem allocated_mid {pre mid post : List (Block Nat)} {q : Nat} {c : Block Nat}
    (h₁ : MCB_ARENA_START + span pre ≤ q) (h₂ : q < MCB_ARENA_START + span pre + span mid) :
    Allocated (pre ++ mid ++ post) q c ↔
      (q, c) ∈ place (MCB_ARENA_START + span pre) mid ∧ c.tag ≠ 0 := by
  have hpre : (q, c) ∉ place MCB_ARENA_START pre := fun hm => by
    have := place_bounds hm
    omega
  have hpost : (q, c) ∉ place (MCB_ARENA_START + span pre + span mid) post := fun hm => by
    have := place_bounds hm
    omega
  simp only [Allocated, mem_place_append₃, hpre, hpost, false_or, or_false]

/-- Only the first block of a stretch placed at `p` may be allocated. -/
def HeadOnly (p : Nat) (mid : List (Block Nat)) : Prop :=
  ∀ q c, (q, c) ∈ place p mid → c.tag ≠ 0 → q = p

theorem headOnly_single (p : Nat) (b : Block Nat) : HeadOnly p [b] := by
  intro q c hm _
  simp only [place, List.mem_singleton, Prod.mk.injEq] at hm
  exact hm.1

theorem headOnly_pair (p : Nat) (b : Block Nat) {d : Block Nat} (hd : d.tag = 0) :
    HeadOnly p [b, d] := by
  intro q c hm ht
  simp only [place, List.mem_cons, Prod.mk.injEq, List.not_mem_nil, or_false] at hm
  rcases hm with hm | hm
  · exact hm.1
  · exact absurd (by rw [hm.2, hd]) ht

/-- The size a block keeps when `need` units are carved off a block of size `n`. -/
def carvedSize (need n : Nat) : Nat := if n ≤ need + 1 then n else need

theorem carvedSize_ge {need n : Nat} (h : need ≤ n) : need ≤ carvedSize need n := by
  unfold carvedSize
  split <;> omega

/-- Carving an owned block leaves it the only allocated one of the stretch. -/
theorem mem_place_carve {p q need : Nat} {b c : Block Nat} (hb : b.tag ≠ 0) :
    ((q, c) ∈ place p (carve 0 need b) ∧ c.tag ≠ 0) ↔
      (q = p ∧ c = ⟨b.tag, carvedSize need b.size⟩) := by
  unfold carve carvedSize
  constructor
  · rintro ⟨hm, ht⟩
    split_ifs at hm ⊢ with h
    · simpa [place] using hm
    · have hne : c ≠ ⟨0, b.size - need - 1⟩ := fun hc => ht (by rw [hc])
      simpa [place, hne] using hm
  · rintro ⟨rfl, rfl⟩
    refine ⟨?_, hb⟩
    split_ifs with h <;> simp [place]

/-- Replacing a stretch with at most its first block allocated changes that block and no
    other. -/
theorem allocated_stretch (pre mid mid' post : List (Block Nat)) (hpos : 0 < span mid)
    (hspan : span mid' = span mid) (hmid : HeadOnly (MCB_ARENA_START + span pre) mid)
    (q : Nat) (c : Block Nat) :
    Allocated (pre ++ mid' ++ post) q c ↔
      (Allocated (pre ++ mid ++ post) q c ∧ q ≠ MCB_ARENA_START + span pre) ∨
      ((q, c) ∈ place (MCB_ARENA_START + span pre) mid' ∧ c.tag ≠ 0) := by
  by_cases hq : q < MCB_ARENA_START + span pre ∨ MCB_ARENA_START + span pre + span mid ≤ q
  · have hin : (q, c) ∉ place (MCB_ARENA_START + span pre) mid' := fun hm => by
      have hb := place_bounds hm
      omega
    rw [allocated_edit hspan hq]
    constructor
    · exact fun h => Or.inl ⟨h, by omega⟩
    · rintro (h | h)
      · exact h.1
      · exact absurd h.1 hin
  · have h₁ : MCB_ARENA_START + span pre ≤ q := by omega
    have h₂ : q < MCB_ARENA_START + span pre + span mid := by omega
    rw [allocated_mid h₁ (by omega), allocated_mid h₁ h₂]
    constructor
    · exact Or.inr
    · rintro (⟨⟨hm, ht⟩, hne⟩ | h)
      · exact absurd (hmid q c hm ht) hne
      · exact h

/-- After `mcb_allocate` the blocks allocated before are, and the new one. -/
theorem allocated_alloc {pre post : List (Block Nat)} {b : Block Nat} (hb : b.tag = 0)
    (need q : Nat) (c : Block Nat) :
    Allocated (pre ++ carve 0 need ⟨PSP_SEG, b.size⟩ ++ post) q c ↔
      Allocated (pre ++ b :: post) q c ∨
      (q = MCB_ARENA_START + span pre ∧ c = ⟨PSP_SEG, carvedSize need b.size⟩) := by
  have hst := allocated_stretch pre [b] (carve 0 need ⟨PSP_SEG, b.size⟩) post (by simp)
    (by rw [span_carve]; simp) (headOnly_single _ _) q c
  have hpsp : PSP_SEG ≠ 0 := by decide
  have hfree : Allocated (pre ++ b :: post) q c → q ≠ MCB_ARENA_START + span pre := by
    rintro h rfl
    exact h.2 (by rw [place_inj h.1 (mem_place_mid pre post b), hb])
  rw [mem_place_carve hpsp] at hst
  simp only [List.append_assoc, List.cons_append, List.nil_append] at hst ⊢
  rw [hst, and_iff_left_of_imp hfree]

/-- After `mcb_free` the blocks allocated before are, except the freed one. -/
theorem allocated_release {pre post : List (Block Nat)} (b : Block Nat) (q : Nat)
    (c : Block Nat) : Allocated (pre ++ release 0 b post) q c ↔
      Allocated (pre ++ b :: post) q c ∧ q ≠ MCB_ARENA_START + span pre := by
  have hno : ∀ n, ¬ ((q, c) ∈ place (MCB_ARENA_START + span pre) [⟨0, n⟩] ∧ c.tag ≠ 0) := by
    rintro n ⟨hm, ht⟩
    simp only [place, List.mem_singleton, Prod.mk.injEq] at hm
    exact ht (by rw [hm.2])
  have hone : ∀ post, (Allocated (pre ++ ⟨0, b.size⟩ :: post) q c ↔
      Allocated (pre ++ b :: post) q c ∧ q ≠ MCB_ARENA_START + span pre) := by
    intro post
    have hst := allocated_stretch pre [b] [⟨0, b.size⟩] post (by simp) (by simp)
      (headOnly_single _ _) q c
    simp only [hno, or_false, List.append_assoc, List.cons_append, List.nil_append] at hst
    exact hst
  cases post with
  | nil => exact hone []
  | cons d post =>
    simp only [release]
    split_ifs with hd
    · have hst := allocated_stretch pre [b, d] [join ⟨0, b.size⟩ d] post
        (by simp only [span_cons]; omega) (by simp only [join, span_cons, span_nil]; omega)
        (headOnly_pair _ _ hd) q c
      simp only [join, hno, or_false, List.append_assoc, List.cons_append, List.nil_append] at hst ⊢
      exact hst
    · exact hone (d :: post)

/-- After `mcb_resize` the blocks allocated before are, the resized one with a new size: at
    least the one asked for when the call reached it, the old one when it did not. -/
theorem allocated_resize {pre post : List (Block Nat)} {b : Block Nat} (n : Nat)
    (hb : b.tag ≠ 0) :
    ∃ n', (resizeReach 0 n b post = n → n ≤ n') ∧ (resizeReach 0 n b post ≠ n → n' = b.size) ∧
      ∀ q c, (Allocated (pre ++ resize 0 n b post) q c ↔
        (Allocated (pre ++ b :: post) q c ∧ q ≠ MCB_ARENA_START + span pre) ∨
        (q = MCB_ARENA_START + span pre ∧ c = ⟨b.tag, n'⟩)) := by
  rcases resize_cases 0 n b post with ⟨hr, hreach⟩ | ⟨d, post, rfl, hd, hn, hr, hreach⟩
  · refine ⟨carvedSize n b.size, fun h => carvedSize_ge (by omega), fun h => if_pos (by omega), ?_⟩
    intro q c
    have hst := allocated_stretch pre [b] (carve 0 n b) post (by simp)
      (by rw [span_carve]; simp) (headOnly_single _ _) q c
    rw [hr, ← List.append_assoc, hst, mem_place_carve hb]
    simp only [List.append_assoc, List.cons_append, List.nil_append]
  · refine ⟨carvedSize n (join b d).size, fun _ => carvedSize_ge hn, fun h => absurd hreach h, ?_⟩
    intro q c
    have hst := allocated_stretch pre [b, d] (carve 0 n (join b d)) post
      (by simp only [span_cons]; omega)
      (by rw [span_carve]; simp only [join, span_cons, span_nil]; omega) (headOnly_pair _ _ hd) q c
    rw [hr, ← List.append_assoc, hst, mem_place_carve (by exact hb)]
    simp only [List.append_assoc, List.cons_append, List.nil_append, join]

/-! ### Bytes of blocks that stay allocated -/

/-- Between the two states, every block allocated in both has kept the bytes that belong
    to it in both. -/
def Kept (bs : List (Block Nat)) (mem : Mem) (bs' : List (Block Nat)) (mem' : Mem) : Prop :=
  ∀ q b b', Allocated bs q b → Allocated bs' q b' → ∀ x, (q + 1) * 16 ≤ x →
    x < (q + 1 + min b.size b'.size) * 16 → mem' x = mem x

/-- The addresses outside the arena. -/
def outsideArena : Set Nat := { x | x < MCB_ARENA_START * 16 ∨ MCB_ARENA_END * 16 ≤ x }

/-- Writing header bytes and bytes outside the arena keeps every block. -/
theorem kept_of_off {mem mem' : Mem} {bs bs' : List (Block Nat)}
    (htiles : MCB_ARENA_START + span bs = MCB_ARENA_END)
    (hoff : AgreesOff (headerBytes bs ∪ headerBytes bs' ∪ outsideArena) mem mem') :
    Kept bs mem bs' mem' := by
  intro q b b' ha ha' x h₁ h₂
  have hbound := place_bounds ha.1
  have hmin : min b.size b'.size ≤ b.size := Nat.min_le_left _ _
  have hmin' : min b.size b'.size ≤ b'.size := Nat.min_le_right _ _
  refine hoff x fun hx => ?_
  rcases hx with (hx | hx) | hx
  · exact not_headerBytes_of_data ha.1 h₁ (by omega) hx
  · exact not_headerBytes_of_data ha'.1 h₁ (by omega) hx
  · simp only [outsideArena, Set.mem_ofPred_eq] at hx
    omega

/-- A step that loses no allocated block, followed by another. -/
theorem Kept.trans {mem mem' mem'' : Mem} {bs bs' bs'' : List (Block Nat)}
    (h₁ : Kept bs mem bs' mem') (hmono : ∀ q b, Allocated bs q b → Allocated bs' q b)
    (h₂ : Kept bs' mem' bs'' mem'') : Kept bs mem bs'' mem'' := by
  intro q b b'' ha ha'' x hx hx'
  have hmin : min b.size b''.size ≤ min b.size b.size := by omega
  rw [h₂ q b b'' (hmono q b ha) ha'' x hx hx',
    h₁ q b b ha (hmono q b ha) x hx (by omega)]

end Dosiz.Mcb
