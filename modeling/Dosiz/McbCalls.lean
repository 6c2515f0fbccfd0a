/-
  Dosiz/McbCalls.lean
  ===================
  **What AH=48 and AH=4A answer, exactly.**

  On a chain AH=48 is first fit: `mcb_calls_exact` says when it succeeds and with which
  segment, and that the BX of a refusal is the largest request it would have served; the
  same for AH=4A, whose block may grow into a free successor.  `alloc_free_alloc` compares
  the chain before an AH=48 with the one after the block is freed again: it is the same
  one, or the freed block has been joined with the free block after it, and what could be
  served before still can be, no higher.
-/
import Mathlib.Order.Bounds.Basic
import Dosiz.ArenaSafety
import Dosiz.FirstFit

namespace Dosiz

open ByteMemory BlockChain Machine Mcb

/-! ### The largest free block -/

theorem le_largestFree (bs : List (Block Nat)) : ∀ l, l ≤ largestFree l bs := by
  induction bs with
  | nil => exact Nat.le_refl
  | cons b bs ih =>
    intro l
    refine Nat.le_trans ?_ (ih _)
    split_ifs with h
    · exact Nat.le_of_lt h.2
    · exact Nat.le_refl l

theorem size_le_largestFree {bs : List (Block Nat)} {b : Block Nat} (hb : b ∈ bs) (hfree : b.tag = 0) :
    ∀ l, b.size ≤ largestFree l bs := by
  induction bs with
  | nil => exact absurd hb List.not_mem_nil
  | cons c bs ih =>
    intro l
    rcases List.mem_cons.mp hb with rfl | hb
    · refine Nat.le_trans ?_ (le_largestFree bs _)
      split_ifs with h
      · exact Nat.le_refl _
      · exact Nat.le_of_not_lt fun hlt => h ⟨hfree, hlt⟩
    · exact ih hb _

theorem largestFree_mem (bs : List (Block Nat)) : ∀ l, largestFree l bs = l ∨
    ∃ b ∈ bs, b.tag = 0 ∧ b.size = largestFree l bs := by
  induction bs with
  | nil => exact fun l => Or.inl rfl
  | cons b bs ih =>
    intro l
    rw [largestFree]
    rcases ih (if b.tag = 0 ∧ l < b.size then b.size else l) with h | ⟨c, hc, hfree, hsize⟩
    · rw [h]
      split_ifs with hb
      · exact Or.inr ⟨b, List.mem_cons_self, hb.1, rfl⟩
      · exact Or.inl rfl
    · exact Or.inr ⟨c, List.mem_cons_of_mem _ hc, hfree, hsize⟩

/-- Where some block is free, the largest free block has room for just the requests that
    some free block has room for. -/
theorem le_largestFree_iff {bs : List (Block Nat)} (hfree : ∃ b ∈ bs, b.tag = 0) {n : Nat} :
    n ≤ largestFree 0 bs ↔ ∃ b ∈ bs, b.tag = 0 ∧ n ≤ b.size := by
  constructor
  · intro h
    rcases largestFree_mem bs 0 with h₀ | ⟨b, hb, ht, hs⟩
    · obtain ⟨b, hb, ht⟩ := hfree
      exact ⟨b, hb, ht, by omega⟩
    · exact ⟨b, hb, ht, by omega⟩
  · rintro ⟨b, hb, ht, hs⟩
    exact hs.trans (size_le_largestFree hb ht 0)

/-! ### The chain a call works on -/

/-- Before the first call the chain is one free block. -/
theorem chain_ready_of_fresh {m : Machine} (h : m.mcbInitialised = false) :
    Chain (mcbReady m).mem [⟨0, 0x7FFF⟩] := by
  rcases mcbReady_cases m with ⟨hi, -⟩ | ⟨-, hr⟩
  · rw [h] at hi
    cases hi
  · rw [hr]
    exact mcbInit_chain m.mem

theorem ready_of_allocated {m : Machine} {bs : List (Block Nat)} (hc : Chain (mcbReady m).mem bs)
    {q : Nat} {b : Block Nat} (ha : Allocated bs q b) : m.mcbInitialised = true := by
  by_contra hi
  obtain rfl := hc.unique (chain_ready_of_fresh (by simpa using hi))
  have hm := ha.1
  simp only [place, List.mem_singleton, Prod.mk.injEq] at hm
  exact ha.2 (by rw [hm.2])

theorem mcbReady_of_init {m : Machine} (h : m.mcbInitialised = true) : mcbReady m = m := if_pos h

@[simp] theorem mcbReady_setR16 (m : Machine) (r : Reg) (v : Nat) :
    mcbReady (m.setR16 r v) = (mcbReady m).setR16 r v := by
  rcases mcbReady_cases m with ⟨hi, hr⟩ | ⟨hi, hr⟩
  · rw [hr]
    exact mcbReady_of_init hi
  · rw [hr]
    exact if_neg (by rw [show (m.setR16 r v).mcbInitialised = m.mcbInitialised from rfl, hi]; decide)

theorem firstFit_lt {bs : List (Block Nat)} {mem : Mem} (hc : Chain mem bs) {need q : Nat}
    (h : firstFit 0 need MCB_ARENA_START bs = some q) : MCB_ARENA_START ≤ q ∧ q + 1 < 65536 := by
  obtain ⟨pre, b, post, rfl, rfl, -⟩ := firstFit_eq_some_iff.mp h
  have hspan := hc.span_eq
  simp only [MCB_ARENA_START]
  omega

/-! ### AH=48 -/

section Allocate

variable {m : Machine} {bs : List (Block Nat)}

/-- `mcb_allocate` takes the first free block that fits. -/
theorem mcbAllocate_firstFit (hc : Chain (mcbReady m).mem bs) (need : Nat) :
    (∃ pre b post mem largest, bs = pre ++ b :: post ∧ b.tag = 0 ∧ need ≤ b.size ∧
      (∀ c ∈ pre, c.tag = 0 → c.size < need) ∧
      mcbAllocate m need =
        some ({ mcbReady m with mem := mem }, MCB_ARENA_START + span pre + 1, largest) ∧
      Chain mem (pre ++ carve 0 need ⟨PSP_SEG, b.size⟩ ++ post) ∧
      AgreesOff (headerBytes (pre ++ carve 0 need ⟨PSP_SEG, b.size⟩ ++ post)) (mcbReady m).mem mem) ∨
    (mcbAllocate m need = some (mcbReady m, 0, largestFree 0 bs) ∧
      ∀ c ∈ bs, c.tag = 0 → c.size < need) := by
  unfold mcbAllocate
  rcases mcbAllocateIn_chain hc need with
    ⟨mem, pre, b, post, rfl, hfree, hneed, ⟨largest, halloc⟩, hc', hoff, hlow⟩ | ⟨halloc, hno⟩
  · left
    exact ⟨pre, b, post, mem, largest, rfl, hfree, hneed, hlow, by simp only [halloc], hc', hoff⟩
  · right
    exact ⟨by simp only [halloc], hno⟩

/-- The answers of AH=48. -/
theorem int21_48_found (hc : Chain (mcbReady m).mem bs) {q : Nat}
    (h : firstFit 0 m.bx MCB_ARENA_START bs = some q) :
    ∃ r, int21_48 m = some (r, false) ∧ r.ax = q + 1 := by
  have hq := firstFit_lt hc h
  rcases mcbAllocate_firstFit hc m.bx with
    ⟨pre, b, post, mem, largest, rfl, hfree, hneed, hlow, halloc, -⟩ | ⟨-, hno⟩
  · rw [firstFit_skip hlow hfree hneed] at h
    obtain rfl := Option.some.inj h
    have hne : MCB_ARENA_START + span pre + 1 ≠ 0 := Nat.succ_ne_zero _
    unfold int21_48
    rw [halloc]
    dsimp only
    rw [if_neg hne]
    exact ⟨_, rfl, (r16_setR16 _ _ _).trans (Nat.mod_eq_of_lt hq.2)⟩
  · rw [firstFit_eq_none_iff.mpr hno] at h
    cases h

theorem int21_48_refused (hc : Chain (mcbReady m).mem bs)
    (h : firstFit 0 m.bx MCB_ARENA_START bs = none) :
    int21_48 m = some ((mcbReady m).setR16s [(.eax, 0x08), (.ebx, largestFree 0 bs)], true) := by
  rcases mcbAllocate_firstFit hc m.bx with
    ⟨pre, b, post, mem, largest, rfl, hfree, hneed, hlow, -⟩ | ⟨halloc, -⟩
  · rw [firstFit_skip hlow hfree hneed] at h
    cases h
  · unfold int21_48
    rw [halloc]
    rfl

theorem int21_48_found_iff (hc : Chain (mcbReady m).mem bs) :
    (∃ r, int21_48 m = some (r, false)) ↔ ∃ b ∈ bs, b.tag = 0 ∧ m.bx ≤ b.size := by
  constructor
  · rintro ⟨r, hr⟩
    by_contra hno
    have hnone : firstFit 0 m.bx MCB_ARENA_START bs = none :=
      firstFit_eq_none_iff.mpr fun b hb ht => Nat.lt_of_not_le fun hle => hno ⟨b, hb, ht, hle⟩
    rw [int21_48_refused hc hnone] at hr
    cases hr
  · rintro ⟨b, hb, ht, hle⟩
    cases hf : firstFit 0 m.bx MCB_ARENA_START bs with
    | some q =>
      obtain ⟨r, hr, -⟩ := int21_48_found hc hf
      exact ⟨r, hr⟩
    | none => exact absurd (firstFit_eq_none_iff.mp hf b hb ht) (Nat.not_lt.mpr hle)

/-- `int21_48_found` read from the answer. -/
theorem int21_48_firstFit (hc : Chain (mcbReady m).mem bs) {r : Machine}
    (h : int21_48 m = some (r, false)) :
    ∃ q, firstFit 0 m.bx MCB_ARENA_START bs = some q ∧ r.ax = q + 1 := by
  cases hf : firstFit 0 m.bx MCB_ARENA_START bs with
  | none =>
    rw [int21_48_refused hc hf] at h
    cases h
  | some q =>
    obtain ⟨r', hr, hax⟩ := int21_48_found hc hf
    rw [hr] at h
    obtain rfl := congrArg Prod.fst (Option.some.inj h)
    exact ⟨q, rfl, hax⟩

end Allocate

/-! ### AH=4A -/

/-- A resize that does not reach the size asked for writes nothing. -/
theorem mcbResizeIn_refused {mem : Mem} {s n : Nat} (h : (mcbResizeIn mem s n).2.1 ≠ n) :
    (mcbResizeIn mem s n).1 = mem := by
  simp only [mcbResizeIn] at h ⊢
  split_ifs at h ⊢ with h₁ h₂ h₃ h₄ h₅ h₆
  · rfl
  · rfl
  · exact absurd rfl h
  · rfl
  · rfl
  · rfl
  · exact absurd rfl h

theorem in_arena {m : Machine} {k : Nat} (hes : m.segVal .es = MCB_ARENA_START + k + 1) :
    m.segVal .es ≠ PSP_SEG ∧ ¬ m.segVal .es < MCB_ARENA_START := by
  have hpsp : PSP_SEG < MCB_ARENA_START := by decide
  constructor <;> omega

section Resize

variable {m : Machine} {pre post : List (Block Nat)} {b : Block Nat}

theorem int21_4A_grants (hi : m.mcbInitialised = true) (hc : Chain m.mem (pre ++ b :: post))
    (hes : m.segVal .es = MCB_ARENA_START + span pre + 1) (h : m.bx ≤ resizeMost 0 b post) :
    ∃ r, int21_4A m = some (r, false) := by
  have hgot := (mcbResizeIn_chain hc m.bx).2.2.1
  rw [resizeReach_eq_iff.mpr h] at hgot
  unfold int21_4A
  rw [if_neg (in_arena hes).1, if_neg (in_arena hes).2]
  dsimp only
  rw [mcbResize, if_pos hi, hes]
  dsimp only
  rw [if_pos hgot]
  exact ⟨_, rfl⟩

theorem int21_4A_refuses (hi : m.mcbInitialised = true) (hc : Chain m.mem (pre ++ b :: post))
    (hes : m.segVal .es = MCB_ARENA_START + span pre + 1) (h : ¬ m.bx ≤ resizeMost 0 b post) :
    int21_4A m = some (m.setR16s [(.eax, 0x08), (.ebx, resizeMost 0 b post)], true) := by
  obtain ⟨-, -, hgot, hmost⟩ := mcbResizeIn_chain hc m.bx
  have hno : (mcbResizeIn m.mem (MCB_ARENA_START + span pre + 1) m.bx).2.1 ≠ m.bx := by
    rw [hgot]
    exact fun heq => h (resizeReach_eq_iff.mp heq)
  have hgrow : b.size < m.bx := Nat.lt_of_not_le fun hle => h (le_resizeMost_iff.mpr (Or.inl hle))
  unfold int21_4A
  rw [if_neg (in_arena hes).1, if_neg (in_arena hes).2]
  dsimp only
  rw [mcbResize, if_pos hi, hes]
  dsimp only
  rw [if_neg hno, mcbResizeIn_refused hno, hmost hgrow]

theorem int21_4A_grants_iff (hi : m.mcbInitialised = true) (hc : Chain m.mem (pre ++ b :: post))
    (hes : m.segVal .es = MCB_ARENA_START + span pre + 1) :
    (∃ r, int21_4A m = some (r, false)) ↔ m.bx ≤ resizeMost 0 b post := by
  constructor
  · rintro ⟨r, hr⟩
    by_contra h
    rw [int21_4A_refuses hi hc hes h] at hr
    cases hr
  · exact int21_4A_grants hi hc hes

end Resize

/-! ### The two calls, for every request -/

/-- AH=48 for `n` paragraphs, made at `m`, succeeds. -/
def Allocates (m : Machine) (n : Nat) : Prop := ∃ r, int21_48 (m.setR16 .ebx n) = some (r, false)

/-- AH=4A to `n` paragraphs, made at `m`, succeeds. -/
def Resizes (m : Machine) (n : Nat) : Prop := ∃ r, int21_4A (m.setR16 .ebx n) = some (r, false)

/-- AH=48 at `m`, whose chain is `bs`: it succeeds iff some free block has BX paragraphs, with
    the lowest one; a refusal leaves memory alone, and names the largest request there is
    room for where some block is free.  The same call with that BX is granted. -/
structure AllocExact (m : Machine) (bs : List (Block Nat)) : Prop where
  returns : ∃ r, int21_48 m = some r
  granted : (∃ r, int21_48 m = some (r, false)) ↔ ∃ b ∈ bs, b.tag = 0 ∧ m.bx ≤ b.size
  lowest : ∀ r, int21_48 m = some (r, false) → ∃ q b, (q, b) ∈ place MCB_ARENA_START bs ∧
    b.tag = 0 ∧ m.bx ≤ b.size ∧ r.ax = q + 1 ∧
    ∀ p c, (p, c) ∈ place MCB_ARENA_START bs → c.tag = 0 → m.bx ≤ c.size → q ≤ p
  unchanged : ∀ r, int21_48 m = some (r, true) → r.mem = (mcbReady m).mem
  largest : ∀ r, int21_48 m = some (r, true) → (∃ b ∈ bs, b.tag = 0) →
    IsGreatest { n | n < 65536 ∧ Allocates m n } r.bx ∧
      ∀ m', Chain (mcbReady m').mem bs → m'.bx = r.bx → ∃ r', int21_48 m' = some (r', false)
  none_free : ∀ r, int21_48 m = some (r, true) → (∀ b ∈ bs, b.tag ≠ 0) →
    r.bx = 0 ∧ ∀ n, ¬ Allocates m n

/-- AH=4A at `m` on the block `b` at `q` of the chain `bs`: it succeeds iff BX is within the
    block, or within what it has with a free successor; a refusal changes nothing, and names
    the largest size there is room for. -/
structure ResizeExact (m : Machine) (bs : List (Block Nat)) (q : Nat) (b : Block Nat) : Prop where
  returns : ∃ r, int21_4A m = some r
  granted : (∃ r, int21_4A m = some (r, false)) ↔ m.bx ≤ b.size ∨
    ∃ c, (q + 1 + b.size, c) ∈ place MCB_ARENA_START bs ∧ c.tag = 0 ∧ m.bx ≤ b.size + 1 + c.size
  unchanged : ∀ r, int21_4A m = some (r, true) → r.mem = m.mem
  largest : ∀ r, int21_4A m = some (r, true) → IsGreatest { n | n < 65536 ∧ Resizes m n } r.bx ∧
    ∀ m', m'.mcbInitialised = true → Chain m'.mem bs → m'.segVal .es = q + 1 → m'.bx = r.bx →
      ∃ r', int21_4A m' = some (r', false)

theorem setR16s_mem (m : Machine) (rs : List (Reg × Nat)) : (m.setR16s rs).mem = m.mem := by
  rw [sameHost_setR16s m rs]

theorem bx_setR16s (m : Machine) (a b : Nat) : (m.setR16s [(.eax, a), (.ebx, b)]).bx = b % 65536 :=
  r16_setR16 _ _ _

theorem allocates_iff {m : Machine} {bs : List (Block Nat)} (hc : Chain (mcbReady m).mem bs) {n : Nat}
    (hn : n < 65536) : Allocates m n ↔ ∃ b ∈ bs, b.tag = 0 ∧ n ≤ b.size := by
  have hbx : (m.setR16 .ebx n).bx = n := (r16_setR16 _ _ _).trans (Nat.mod_eq_of_lt hn)
  have hc' : Chain (mcbReady (m.setR16 .ebx n)).mem bs := by
    rw [mcbReady_setR16]
    exact hc
  rw [Allocates, int21_48_found_iff hc', hbx]

theorem size_lt {mem : Mem} {bs : List (Block Nat)} (hc : Chain mem bs) {b : Block Nat} (hb : b ∈ bs) :
    b.size < 0x8000 := by
  obtain ⟨pre, post, rfl⟩ := List.append_of_mem hb
  have hspan := hc.span_eq
  omega

theorem int21_48_exact {m : Machine} {bs : List (Block Nat)} (hc : Chain (mcbReady m).mem bs) :
    AllocExact m bs := by
  have hrefused : ∀ r, int21_48 m = some (r, true) →
      r = (mcbReady m).setR16s [(.eax, 0x08), (.ebx, largestFree 0 bs)] := by
    intro r hr
    cases hf : firstFit 0 m.bx MCB_ARENA_START bs with
    | some q =>
      obtain ⟨r', hr', -⟩ := int21_48_found hc hf
      rw [hr] at hr'
      cases hr'
    | none =>
      rw [int21_48_refused hc hf] at hr
      exact (congrArg Prod.fst (Option.some.inj hr)).symm
  constructor
  · cases hf : firstFit 0 m.bx MCB_ARENA_START bs with
    | some q =>
      obtain ⟨r, hr, -⟩ := int21_48_found hc hf
      exact ⟨_, hr⟩
    | none => exact ⟨_, int21_48_refused hc hf⟩
  · exact int21_48_found_iff hc
  · intro r hr
    obtain ⟨q, hf, hax⟩ := int21_48_firstFit hc hr
    obtain ⟨pre, b, post, rfl, rfl, hfree, hneed, hlow⟩ := firstFit_eq_some_iff.mp hf
    refine ⟨_, b, mem_place_mid pre post b, hfree, hneed, hax, ?_⟩
    intro p c hp hfree' hneed'
    by_contra hlt
    -- a block below the one found is among those passed over
    rw [place_append, List.mem_append] at hp
    rcases hp with hp | hp
    · obtain ⟨xs, ys, rfl, -⟩ := mem_place_iff.mp hp
      have hsmall := hlow c (by simp) hfree'
      omega
    · have hge := (place_bounds hp).1
      omega
  · intro r hr
    rw [hrefused r hr, setR16s_mem]
  · intro r hr hfree
    have hle := @le_largestFree_iff bs hfree
    have hlt : largestFree 0 bs < 65536 := by
      obtain ⟨b, hb, -, hs⟩ := hle.mp (Nat.le_refl _)
      have hsz := size_lt hc hb
      omega
    have hbx : r.bx = largestFree 0 bs := by
      rw [hrefused r hr, bx_setR16s, Nat.mod_eq_of_lt hlt]
    rw [hbx]
    refine ⟨⟨⟨hlt, (allocates_iff hc hlt).mpr (hle.mp (Nat.le_refl _))⟩, ?_⟩, ?_⟩
    · rintro n ⟨hn, ha⟩
      exact hle.mpr ((allocates_iff hc hn).mp ha)
    · intro m' hc' hbx'
      rw [int21_48_found_iff hc', hbx']
      exact hle.mp (Nat.le_refl _)
  · intro r hr hnone
    constructor
    · rcases largestFree_mem bs 0 with h₀ | ⟨b, hb, ht, -⟩
      · rw [hrefused r hr, bx_setR16s, h₀]
      · exact absurd ht (hnone b hb)
    · rintro n ⟨r', hr'⟩
      have hc' : Chain (mcbReady (m.setR16 .ebx n)).mem bs := by
        rw [mcbReady_setR16]
        exact hc
      obtain ⟨b, hb, ht, -⟩ := (int21_48_found_iff hc').mp ⟨r', hr'⟩
      exact hnone b hb ht

theorem int21_4A_exact {m : Machine} {bs : List (Block Nat)} {q : Nat} {b : Block Nat}
    (hi : m.mcbInitialised = true) (hc : Chain m.mem bs) (hm : (q, b) ∈ place MCB_ARENA_START bs)
    (hes : m.segVal .es = q + 1) : ResizeExact m bs q b := by
  obtain ⟨pre, post, rfl, rfl⟩ := mem_place_iff.mp hm
  have hspan := hc.span_eq
  have hrefused : ∀ r, int21_4A m = some (r, true) →
      r = m.setR16s [(.eax, 0x08), (.ebx, resizeMost 0 b post)] := by
    intro r hr
    by_cases h : m.bx ≤ resizeMost 0 b post
    · obtain ⟨r', hr'⟩ := int21_4A_grants hi hc hes h
      rw [hr] at hr'
      cases hr'
    · rw [int21_4A_refuses hi hc hes h] at hr
      exact (congrArg Prod.fst (Option.some.inj hr)).symm
  have hlt : resizeMost 0 b post < 65536 := by
    rcases le_resizeMost_iff.mp (Nat.le_refl (resizeMost 0 b post)) with h | ⟨c, hc', -, h⟩
    · omega
    · have hsz := size_lt hc (b := c) (by
        cases post with
        | nil => cases hc'
        | cons d post =>
          obtain rfl := Option.some.inj hc'
          simp)
      omega
  constructor
  · by_cases h : m.bx ≤ resizeMost 0 b post
    · obtain ⟨r, hr⟩ := int21_4A_grants hi hc hes h
      exact ⟨_, hr⟩
    · exact ⟨_, int21_4A_refuses hi hc hes h⟩
  · rw [int21_4A_grants_iff hi hc hes, le_resizeMost_iff]
    simp only [mem_place_next]
  · intro r hr
    rw [hrefused r hr, setR16s_mem]
  · intro r hr
    have hbx : r.bx = resizeMost 0 b post := by
      rw [hrefused r hr, bx_setR16s, Nat.mod_eq_of_lt hlt]
    have hres : ∀ n, n < 65536 → (Resizes m n ↔ n ≤ resizeMost 0 b post) := by
      intro n hn
      have hbx' : (m.setR16 .ebx n).bx = n := (r16_setR16 _ _ _).trans (Nat.mod_eq_of_lt hn)
      have h := int21_4A_grants_iff (m := m.setR16 .ebx n) hi hc hes
      rw [hbx'] at h
      exact h
    rw [hbx]
    refine ⟨⟨⟨hlt, (hres _ hlt).mpr (Nat.le_refl _)⟩, fun n hn => (hres n hn.1).mp hn.2⟩, ?_⟩
    intro m' hi' hc' hes' hbx'
    exact (int21_4A_grants_iff hi' hc' hes').mpr (Nat.le_of_eq hbx')

/-- **AH=48 and AH=4A on a chain**, for every chain and every request. -/
theorem mcb_calls_exact {m : Machine} {bs : List (Block Nat)} (hc : Chain (mcbReady m).mem bs) :
    AllocExact m bs ∧
      ∀ q b, Allocated bs q b → m.segVal .es = q + 1 → ResizeExact m bs q b := by
  refine ⟨int21_48_exact hc, fun q b ha hes => ?_⟩
  have hi := ready_of_allocated hc ha
  rw [mcbReady_of_init hi] at hc
  exact int21_4A_exact hi hc ha.1 hes

/-- The chain after the first call of a program that asks for 0x1000 paragraphs. -/
theorem mcb_calls_exact_asked : AllocExact served asked ∧
    ResizeExact (served.setSeg .es ⟨0x2001, 0x20010⟩) asked 0x2000 ⟨PSP_SEG, 0x1000⟩ := by
  have hinit : served.mcbInitialised = true := by decide +kernel
  have hc : Chain (mcbReady served).mem asked := by
    rw [mcbReady_of_init hinit]
    exact chain_asked
  have hc' : Chain (mcbReady (served.setSeg .es ⟨0x2001, 0x20010⟩)).mem asked := by
    rw [mcbReady_of_init (m := served.setSeg .es ⟨0x2001, 0x20010⟩) hinit]
    exact chain_asked
  exact ⟨(mcb_calls_exact hc).1, (mcb_calls_exact hc').2 _ _ ⟨by decide, by decide⟩ rfl⟩

/-- A program that owns the whole arena. -/
def exhausted : Machine :=
  (finish (int21_48 { bootMachine with cpu := arenaCpu 0x7FFF 0 })).getD bootMachine

theorem chain_exhausted : Chain exhausted.mem [⟨PSP_SEG, 0x7FFF⟩] := by
  refine ⟨by decide, by decide, ⟨?_, ?_, ?_⟩, trivial⟩ <;> decide +kernel

/-- Where no block is free no request is served, the one for 0 paragraphs included: the BX of
    the refusal is 0, and the call with that BX is refused too. -/
theorem exhausted_refuses_again : Chain exhausted.mem [⟨PSP_SEG, 0x7FFF⟩] ∧
    ∃ r, int21_48 exhausted = some (r, true) ∧
      ¬ IsGreatest { n | n < 65536 ∧ Allocates exhausted n } r.bx ∧
      ∃ r', int21_48 r = some (r', true) := by
  have hc : Chain (mcbReady exhausted).mem [⟨PSP_SEG, 0x7FFF⟩] := by
    rw [mcbReady_of_init (by decide +kernel)]
    exact chain_exhausted
  have hnone : ∀ need, firstFit 0 need MCB_ARENA_START [(⟨PSP_SEG, 0x7FFF⟩ : Block Nat)] = none :=
    fun need => if_neg fun h => absurd h.1 (by decide)
  have hr := int21_48_refused hc (hnone exhausted.bx)
  refine ⟨chain_exhausted, _, hr, ?_, _, int21_48_refused ?_ (hnone _)⟩
  · intro h
    exact ((int21_48_exact hc).none_free _ hr (by decide)).2 _ h.1.2
  · rw [mcbReady_of_init (by decide +kernel), setR16s_mem]
    exact hc

/-! ### Freeing what was just allocated -/

/-- `m'` is `m` after anything that leaves the chain's headers alone: guest code, and the
    carry of a call in its FLAGS image. -/
structure HeadersKept (m m' : Machine) : Prop where
  init : m'.mcbInitialised = m.mcbInitialised
  headers : ∀ bs, Chain m.mem bs → ∀ x ∈ headerBytes bs, m'.mem x = m.mem x

theorem HeadersKept.chain {m m' : Machine} (h : HeadersKept m m') {bs : List (Block Nat)}
    (hc : Chain m.mem bs) : Chain m'.mem bs := by
  refine hc.frame (S := { x | m'.mem x ≠ m.mem x }) ?_ ?_
  · intro x hx
    by_contra hne
    exact hx hne
  · intro x hx hb
    exact hx (h.headers bs hc x hb)

/-- Freeing what was carved off a free block gives the block back, or joins it with the free
    block after it. -/
theorem release_carve {n t : Nat} {b d : Block Nat} {rest : List (Block Nat)}
    (post : List (Block Nat)) (hb : b.tag = 0)
    (hcut : carve 0 n ⟨t, b.size⟩ = d :: rest) :
    release 0 d (rest ++ post) = b :: post ∨
      ∃ c post', post = c :: post' ∧ release 0 d (rest ++ post) = join b c :: post' := by
  obtain ⟨tag, size⟩ := b
  obtain rfl : tag = 0 := hb
  rw [carve] at hcut
  split_ifs at hcut with hsmall
  · obtain ⟨rfl, rfl⟩ := List.cons.inj hcut
    cases post with
    | nil => exact Or.inl rfl
    | cons c post =>
      by_cases hc : c.tag = 0
      · exact Or.inr ⟨c, post, rfl, by rw [List.nil_append, release, if_pos hc]⟩
      · exact Or.inl (by rw [List.nil_append, release, if_neg hc])
  · obtain ⟨rfl, rfl⟩ := List.cons.inj hcut
    left
    rw [List.singleton_append, release, if_pos rfl]
    refine congrArg (· :: post) ?_
    simp only [join, Block.mk.injEq, true_and]
    dsimp only at hsmall
    omega

/-- What holds after AH=48 (from `m₀` to `r₁`), AH=49 on its segment (from `m₁` to `r₂`), and
    then at `m₂`: the request is served again with the same segment, the chain is well formed
    with the blocks allocated that were, neither call has written to one of them, and no
    request is served worse. -/
structure ServedAgain (m₀ r₁ m₁ r₂ m₂ : Machine) (bs : List (Block Nat)) : Prop where
  again : m₂.bx = m₀.bx → ∃ r, int21_48 m₂ = some (r, false) ∧ r.ax = r₁.ax
  chain : ∃ bs', Chain m₂.mem bs' ∧ ∀ q b, Allocated bs' q b ↔ Allocated bs q b
  untouched : ∀ q b, Allocated bs q b → ∀ x, (q + 1) * 16 ≤ x → x < (q + 1 + b.size) * 16 →
    r₁.mem x = (mcbReady m₀).mem x ∧ r₂.mem x = m₁.mem x
  no_worse : ∀ n r, int21_48 (m₀.setR16 .ebx n) = some (r, false) →
    ∃ r', int21_48 (m₂.setR16 .ebx n) = some (r', false) ∧ r'.ax ≤ r.ax

/-- A chain that is no worse than another serves AH=48 no worse. -/
theorem int21_48_asGood {m m' : Machine} {bs bs' : List (Block Nat)} (hc : Chain (mcbReady m).mem bs)
    (hc' : Chain (mcbReady m').mem bs') (hgood : AsGood 0 bs bs') {n : Nat} {r : Machine}
    (hr : int21_48 (m.setR16 .ebx n) = some (r, false)) :
    ∃ r', int21_48 (m'.setR16 .ebx n) = some (r', false) ∧ r'.ax ≤ r.ax := by
  have hready : ∀ x : Machine, (mcbReady (x.setR16 .ebx n)).mem = (mcbReady x).mem := fun x => by
    rw [mcbReady_setR16]
    rfl
  have hbx : ∀ x : Machine, (x.setR16 .ebx n).bx = n % 65536 := fun x => r16_setR16 _ _ _
  obtain ⟨q, hq, hax⟩ := int21_48_firstFit ((hready m).symm ▸ hc) hr
  rw [hbx] at hq
  obtain ⟨q', hle, hq'⟩ := hgood _ _ _ hq
  obtain ⟨r', hr', hax'⟩ := int21_48_found (m := m'.setR16 .ebx n) ((hready m').symm ▸ hc')
    ((hbx m').symm ▸ hq')
  exact ⟨r', hr', by omega⟩

/-- **AH=48, AH=49, AH=48.**  On every chain, a block that is allocated and freed again is
    served again, the rest of the chain is as it was, and no request is served worse. -/
theorem alloc_free_alloc {m₀ r₁ m₁ : Machine} {bs : List (Block Nat)}
    (hc : Chain (mcbReady m₀).mem bs) (halloc : int21_48 m₀ = some (r₁, false))
    (h₁ : HeadersKept r₁ m₁) (hes : m₁.segVal .es = r₁.ax) :
    ∃ r₂, int21_49 m₁ = some (r₂, false) ∧
      ∀ m₂, HeadersKept r₂ m₂ → ServedAgain m₀ r₁ m₁ r₂ m₂ bs := by
  obtain ⟨q, hq, hax⟩ := int21_48_firstFit hc halloc
  rcases mcbAllocate_firstFit hc m₀.bx with
    ⟨pre, b, post, mem, largest, rfl, hfree, hneed, hlow, hcall, hc₁, hoff₁⟩ | ⟨-, hno⟩
  swap
  · rw [firstFit_eq_none_iff.mpr hno] at hq
    cases hq
  rw [firstFit_skip hlow hfree hneed] at hq
  obtain rfl := Option.some.inj hq
  -- the state after AH=48
  obtain ⟨hmem₁, hinit₁⟩ : r₁.mem = mem ∧ r₁.mcbInitialised = true := by
    have hready : (mcbReady m₀).mcbInitialised = true := by
      rcases mcbReady_cases m₀ with ⟨hi, hr⟩ | ⟨-, hr⟩
      · rw [hr]
        exact hi
      · rw [hr]
    unfold int21_48 at halloc
    rw [hcall] at halloc
    dsimp only at halloc
    rw [if_neg (Nat.succ_ne_zero _)] at halloc
    obtain rfl := congrArg Prod.fst (Option.some.inj halloc)
    exact ⟨rfl, hready⟩
  obtain ⟨d, rest, hcut⟩ : ∃ d rest, carve 0 m₀.bx ⟨PSP_SEG, b.size⟩ = d :: rest :=
    List.exists_cons_of_ne_nil (carve_ne_nil 0 _ _)
  have hcd : Chain m₁.mem (pre ++ d :: (rest ++ post)) := by
    refine h₁.chain ?_
    rw [hmem₁]
    simpa [hcut] using hc₁
  -- the state after AH=49
  have hinit : m₁.mcbInitialised = true := h₁.init.trans hinit₁
  obtain ⟨hok, hc₂, hoff₂⟩ := mcbFreeIn_chain hcd
  rw [← hax, ← hes] at hok hc₂ hoff₂
  refine ⟨(mcbFree m₁ (m₁.segVal .es)).1, ?_, fun m₂ h₂ => ?_⟩
  · unfold int21_49
    rw [mcbFree, if_pos hinit]
    dsimp only
    rw [if_pos hok]
  have hmem₂ : (mcbFree m₁ (m₁.segVal .es)).1.mem = (mcbFreeIn m₁.mem (m₁.segVal .es)).1 := by
    rw [mcbFree, if_pos hinit]
  have hinit₂ : m₂.mcbInitialised = true := by
    rw [h₂.init, mcbFree, if_pos hinit]
    exact hinit
  have hcm : Chain m₂.mem (pre ++ release 0 d (rest ++ post)) := h₂.chain (hmem₂.symm ▸ hc₂)
  have hcm' : Chain (mcbReady m₂).mem (pre ++ release 0 d (rest ++ post)) := by
    rw [mcbReady_of_init hinit₂]
    exact hcm
  have halld : ∀ p c, Allocated (pre ++ d :: (rest ++ post)) p c ↔
      Allocated (pre ++ carve 0 m₀.bx ⟨PSP_SEG, b.size⟩ ++ post) p c := by
    intro p c
    rw [hcut]
    simp
  constructor
  · intro hbx
    have hfit : firstFit 0 m₂.bx MCB_ARENA_START (pre ++ release 0 d (rest ++ post)) =
        some (MCB_ARENA_START + span pre) := by
      rw [hbx]
      rcases release_carve post hfree hcut with h | ⟨c, post', -, h⟩
      · rw [h]
        exact firstFit_skip hlow hfree hneed _
      · rw [h]
        refine firstFit_skip (b := join b c) hlow hfree ?_ _
        simp only [join]
        omega
    obtain ⟨r, hr, hax'⟩ := int21_48_found hcm' hfit
    exact ⟨r, hr, hax'.trans hax.symm⟩
  · refine ⟨_, hcm, fun p c => ?_⟩
    rw [allocated_release, halld, allocated_alloc hfree]
    constructor
    · rintro ⟨h | h, hne⟩
      · exact h
      · exact absurd h.1 hne
    · intro h
      refine ⟨Or.inl h, ?_⟩
      rintro rfl
      exact h.2 (by rw [place_inj h.1 (mem_place_mid pre post b), hfree])
  · intro p c hp x hx hx'
    have hp₁ := (allocated_alloc hfree m₀.bx p c).mpr (Or.inl hp)
    constructor
    · rw [hmem₁]
      exact hoff₁ x (not_headerBytes_of_data hp₁.1 hx hx')
    · rw [hmem₂]
      exact hoff₂ x (not_headerBytes_of_data ((halld p c).mpr hp₁).1 hx hx')
  · intro n r hr
    refine int21_48_asGood hc hcm' ?_ hr
    refine AsGood.append_left ?_ pre
    rcases release_carve post hfree hcut with h | ⟨c, post', rfl, h⟩
    · rw [h]
      exact AsGood.refl 0 _
    · rw [h]
      exact asGood_join hfree post'

/-- The first program's AH=48 for 0x1000 paragraphs, and its AH=49. -/
theorem alloc_free_alloc_asked : ∃ r₁ r₂, int21_48 asking = some (r₁, false) ∧
    int21_49 (r₁.setSeg .es ⟨0x2001, 0x20010⟩) = some (r₂, false) ∧ ∀ m₂, HeadersKept r₂ m₂ →
      ServedAgain asking r₁ (r₁.setSeg .es ⟨0x2001, 0x20010⟩) r₂ m₂ [⟨0, 0x7FFF⟩] := by
  have hc := chain_ready_of_fresh (m := asking) rfl
  have hbx : asking.bx = 0x1000 := by decide +kernel
  obtain ⟨r₁, hr₁, hax⟩ := int21_48_found hc (q := 0x2000) (by rw [hbx]; decide)
  have hkept : HeadersKept r₁ (r₁.setSeg .es ⟨0x2001, 0x20010⟩) := ⟨rfl, fun _ _ _ _ => rfl⟩
  obtain ⟨r₂, hr₂, h⟩ := alloc_free_alloc hc hr₁ hkept (by rw [hax]; rfl)
  exact ⟨r₁, r₂, hr₁, hr₂, h⟩

end Dosiz
