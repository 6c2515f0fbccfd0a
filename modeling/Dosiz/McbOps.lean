/-
  Dosiz/McbOps.lean
  =================
  **The MCB functions edit the chain as intended.**

  For memory that holds a chain, each function of `Mcb.lean` is shown to leave memory
  holding the edited chain and to write header bytes only:

    * `mcbFindFree_spec`    — the walk ends, at the first free block that fits;
    * `mcbSplit_chain`      — `carve`;
    * `mcbAllocateIn_chain` — `carve` of a free block, with the owner filled in;
    * `mcbFreeIn_chain`     — `release`;
    * `mcbResizeIn_chain`   — `carve`, or `join` with a free successor and then `carve`.
-/
import Dosiz.Mcb

namespace Dosiz.Mcb

open ByteMemory BlockChain

/-! ### The walk -/

/-- The largest free block of a list, starting from what was seen before it. -/
def largestFree : Nat → List (Block Nat) → Nat
  | largest, [] => largest
  | largest, b :: bs => largestFree (if b.tag = 0 ∧ largest < b.size then b.size else largest) bs

/-- What `mcb_find_free` reports on a chain placed at `p`: the first free block that fits,
    or failure and the largest free block. -/
def FirstFit (need p largest : Nat) (bs : List (Block Nat)) (r : Nat × Nat) : Prop :=
  (∃ pre b post, bs = pre ++ b :: post ∧ r.1 = p + span pre ∧ b.tag = 0 ∧ need ≤ b.size ∧
    ∀ c ∈ pre, c.tag = 0 → c.size < need) ∨
  (r = (0, largestFree largest bs) ∧ ∀ c ∈ bs, c.tag = 0 → c.size < need)

theorem mcbWalk_firstFit {mem : Mem} {need : Nat} (bs : List (Block Nat)) :
    ∀ {fuel p : Nat} (largest : Nat), Links (HeaderAt mem) false p bs → bs ≠ [] →
      p + span bs ≤ MCB_ARENA_END → bs.length ≤ fuel →
      ∃ r, mcbWalk mem need fuel p largest = some r ∧ FirstFit need p largest bs r := by
  induction bs with
  | nil =>
    intro _ _ _ _ h
    exact absurd rfl h
  | cons b bs ih =>
    intro fuel p largest hl _ hp hf
    cases fuel with
    | zero => simp at hf
    | succ fuel =>
      obtain ⟨hd, hrest⟩ := hl
      simp only [MCB_ARENA_END, span_cons] at hp
      rw [mcbWalk]
      simp only [if_neg hd.type_ok, hd.owner, hd.size]
      by_cases hfit : b.tag = 0 ∧ need ≤ b.size
      · rw [if_pos hfit]
        exact ⟨_, rfl, Or.inl ⟨[], b, bs, rfl, by simp, hfit.1, hfit.2, by simp⟩⟩
      · have hb : b.tag = 0 → b.size < need := fun h0 => by
          by_contra hge
          exact hfit ⟨h0, by omega⟩
        rw [if_neg hfit]
        cases bs with
        | nil =>
          have ht : readb mem (p * 16) = 0x5A := by simpa using hd.type
          rw [if_pos ht]
          exact ⟨_, rfl, Or.inr ⟨rfl, by simpa using hb⟩⟩
        | cons c bs =>
          have ht : readb mem (p * 16) ≠ 0x5A := by simp [hd.type]
          rw [if_neg ht, Nat.mod_eq_of_lt (by omega), show p + 1 + b.size = p + 1 + b.size from rfl]
          obtain ⟨r, hr, hfit'⟩ := ih (if b.tag = 0 ∧ largest < b.size then b.size else largest)
            hrest (by simp) (by simp only [MCB_ARENA_END]; omega) (by simpa using hf)
          refine ⟨r, hr, ?_⟩
          rcases hfit' with ⟨pre, d, post, he, h1, h2, h3, h4⟩ | ⟨he, h4⟩
          · refine Or.inl ⟨b :: pre, d, post, by rw [he]; rfl, ?_, h2, h3, ?_⟩
            · simp only [span_cons]; omega
            · intro e hm
              rcases List.mem_cons.mp hm with rfl | hm
              · exact hb
              · exact h4 e hm
          · refine Or.inr ⟨he, fun e hm => ?_⟩
            rcases List.mem_cons.mp hm with rfl | hm
            · exact hb
            · exact h4 e hm

theorem length_le_span (bs : List (Block Nat)) : bs.length ≤ span bs := by
  induction bs with
  | nil => exact Nat.le_refl 0
  | cons b bs ih => simp only [List.length_cons, span_cons]; omega

/-- On a chain the walk ends: `mcb_find_free` returns. -/
theorem mcbFindFree_spec {mem : Mem} {bs : List (Block Nat)} (h : Chain mem bs) (need : Nat) :
    ∃ r, mcbFindFree mem need = some r ∧ FirstFit need MCB_ARENA_START 0 bs r := by
  have hs := h.tiles
  have hl := length_le_span bs
  simp only [MCB_ARENA_START, MCB_ARENA_END] at hs
  refine mcbWalk_firstFit bs 0 h.links h.ne_nil (Nat.le_of_eq h.tiles) ?_
  omega

/-! ### Splitting a block -/

/-- The bytes of the header at `p`. -/
def hdrBytes (p : Nat) : Set Nat := Set.Ico (p * 16) (p * 16 + 5)

theorem hdrBytes_subset {bs : List (Block Nat)} {q : Nat} {b : Block Nat}
    (h : (q, b) ∈ place MCB_ARENA_START bs) : hdrBytes q ⊆ headerBytes bs :=
  fun _ hx => ⟨q, b, h, hx.1, hx.2⟩

theorem mem_place_mid (pre post : List (Block Nat)) (b : Block Nat) :
    (MCB_ARENA_START + span pre, b) ∈ place MCB_ARENA_START (pre ++ b :: post) :=
  mem_place_iff.mpr ⟨pre, post, rfl, rfl⟩

theorem mcbSplit_off (mem : Mem) {p need : Nat} (h : p + 1 + need < 65536) :
    AgreesOff (hdrBytes p ∪ hdrBytes (p + 1 + need)) mem (mcbSplit mem p need) := by
  simp only [mcbSplit, Nat.mod_eq_of_lt h]
  split_ifs with hcut
  · exact AgreesOff.refl _ _
  · intro x hx
    simp only [hdrBytes, Set.mem_union, Set.mem_Ico, not_or, not_and] at hx
    rw [writew_off _ _ _ x (by simp only [Set.mem_Ico]; omega), writeb_of_ne (by omega),
      writew_off _ _ _ x (by simp only [Set.mem_Ico]; omega),
      writew_off _ _ _ x (by simp only [Set.mem_Ico]; omega), writeb_of_ne (by omega)]

/-- The two headers `mcb_split` leaves when it cuts. -/
theorem mcbSplit_headers {mem : Mem} {p need : Nat} {last : Bool} {b : Block Nat}
    (hd : HeaderAt mem p last b) (hp : p + 1 + b.size < 65536) (hcut : ¬ b.size ≤ need + 1) :
    HeaderAt (mcbSplit mem p need) p false ⟨b.tag, need⟩ ∧
      HeaderAt (mcbSplit mem p need) (p + 1 + need) last ⟨0, b.size - need - 1⟩ := by
  have hns : p + 1 + need < 65536 := by omega
  have ht := hd.type
  have ho := hd.owner
  have hs := hd.size
  simp only [mcbSplit, hs, Nat.mod_eq_of_lt hns, if_neg hcut]
  refine ⟨⟨?_, ?_, ?_⟩, ⟨?_, ?_, ?_⟩⟩
  · simp (disch := omega) only [readb_writew_of_ne, readb_writeb]
    rfl
  · simp (disch := omega) only [readw_writew_of_disjoint, readw_writeb_of_ne, ho]
  · rw [readw_writew]
    exact Nat.mod_eq_of_lt (by omega)
  · simp (disch := omega) only [readb_writew_of_ne, readb_writeb_of_ne, readb_writeb, ht]
    cases last <;> rfl
  · simp (disch := omega) only [readw_writew_of_disjoint, readw_writeb_of_ne, readw_writew]
  · simp (disch := omega) only [readw_writew_of_disjoint, readw_writeb_of_ne, readw_writew]
    exact Nat.mod_eq_of_lt (by omega)

theorem mcbSplit_chain {mem : Mem} {pre post : List (Block Nat)} {b : Block Nat}
    (h : Chain mem (pre ++ b :: post)) (need : Nat) :
    Chain (mcbSplit mem (MCB_ARENA_START + span pre) need) (pre ++ carve 0 need b ++ post) ∧
      AgreesOff (headerBytes (pre ++ carve 0 need b ++ post)) mem
        (mcbSplit mem (MCB_ARENA_START + span pre) need) := by
  have hd := h.header
  have hspan := h.span_eq
  have hp : MCB_ARENA_START + span pre + 1 + b.size < 65536 := by
    simp only [MCB_ARENA_START]; omega
  by_cases hcut : b.size ≤ need + 1
  · have hid : mcbSplit mem (MCB_ARENA_START + span pre) need = mem := by
      simp only [mcbSplit, hd.size, if_pos hcut]
    rw [hid, carve, if_pos hcut]
    exact ⟨by simpa using h, AgreesOff.refl _ _⟩
  · have hoff := mcbSplit_off mem (show MCB_ARENA_START + span pre + 1 + need < 65536 by omega)
    obtain ⟨h₁, h₂⟩ := mcbSplit_headers hd hp hcut
    have hcarve : carve 0 need b = [⟨b.tag, need⟩, ⟨0, b.size - need - 1⟩] := by
      rw [carve, if_neg hcut]
    refine ⟨?_, hoff.mono ?_⟩
    · refine Chain.edit [b] (carve 0 need b) (by simpa using h) (by simp) (carve_ne_nil _ _ _)
        (by rw [span_carve]; simp) hoff ?_ ?_
      · intro x hx
        simp only [hdrBytes, Set.mem_union, Set.mem_Ico] at hx
        simp only [span_cons, span_nil]
        omega
      · rw [hcarve]
        exact ⟨h₁, by cases post <;> simpa using h₂, trivial⟩
    · rw [hcarve]
      refine Set.union_subset ?_ ?_
      · exact hdrBytes_subset (b := ⟨b.tag, need⟩) (by simpa using mem_place_mid pre _ _)
      · refine hdrBytes_subset (b := ⟨0, b.size - need - 1⟩) (mem_place_iff.mpr
          ⟨pre ++ [⟨b.tag, need⟩], post, by simp, ?_⟩)
        simp only [span_append, span_cons, span_nil]
        omega

/-! ### Allocating -/

theorem writew_owner_off (mem : Mem) (p o : Nat) :
    AgreesOff (hdrBytes p) mem (writew mem (p * 16 + 1) o) :=
  (writew_off mem _ _).mono fun x hx => ⟨by have := hx.1; omega, by have := hx.2; omega⟩

/-- Storing an owner word re-tags the block. -/
theorem retag_chain {mem : Mem} {pre post : List (Block Nat)} {b : Block Nat}
    (h : Chain mem (pre ++ b :: post)) {o : Nat} (ho : o < 65536) :
    Chain (writew mem ((MCB_ARENA_START + span pre) * 16 + 1) o) (pre ++ ⟨o, b.size⟩ :: post) := by
  have hd := h.header
  have hedit := Chain.edit [b] [⟨o, b.size⟩] (by simpa using h) (by simp)
    (by simp) (by simp) (writew_owner_off mem (MCB_ARENA_START + span pre) o) ?_ ?_
  · simpa using hedit
  · intro x hx
    simp only [hdrBytes, Set.mem_Ico] at hx
    simp only [span_cons, span_nil]
    omega
  · refine ⟨⟨?_, ?_, ?_⟩, trivial⟩
    · rw [readb_writew_of_ne (by omega) (by omega), hd.type]
      cases post <;> rfl
    · rw [readw_writew]
      exact Nat.mod_eq_of_lt ho
    · rw [readw_writew_of_disjoint (by omega)]
      exact hd.size

/-- Where the headers are does not depend on the owners. -/
theorem headerBytes_retag (pre post : List (Block Nat)) (t t' n : Nat) :
    headerBytes (pre ++ ⟨t, n⟩ :: post) = headerBytes (pre ++ ⟨t', n⟩ :: post) := by
  ext x
  simp only [headerBytes, Set.mem_ofPred_eq, place_append, place, List.mem_append, List.mem_cons]
  constructor <;> rintro ⟨q, c, hm | hm | hm, hx⟩
  · exact ⟨q, c, Or.inl hm, hx⟩
  · exact ⟨q, ⟨t', n⟩, Or.inr (Or.inl (by simp_all)), hx⟩
  · exact ⟨q, c, Or.inr (Or.inr hm), hx⟩
  · exact ⟨q, c, Or.inl hm, hx⟩
  · exact ⟨q, ⟨t, n⟩, Or.inr (Or.inl (by simp_all)), hx⟩
  · exact ⟨q, c, Or.inr (Or.inr hm), hx⟩

theorem carve_tag (need o : Nat) (b : Block Nat) :
    ∃ n rest, carve 0 need b = ⟨b.tag, n⟩ :: rest ∧ carve 0 need ⟨o, b.size⟩ = ⟨o, n⟩ :: rest := by
  unfold carve
  by_cases h : b.size ≤ need + 1
  · simp only [if_pos h]
    exact ⟨b.size, [], rfl, rfl⟩
  · simp only [if_neg h]
    exact ⟨need, [⟨0, b.size - need - 1⟩], rfl, rfl⟩

theorem mcbAllocateIn_chain {mem : Mem} {bs : List (Block Nat)} (h : Chain mem bs) (need : Nat) :
    (∃ mem' pre b post, bs = pre ++ b :: post ∧ b.tag = 0 ∧ need ≤ b.size ∧
      (∃ largest, mcbAllocateIn mem need =
        some (mem', MCB_ARENA_START + span pre + 1, largest)) ∧
      Chain mem' (pre ++ carve 0 need ⟨PSP_SEG, b.size⟩ ++ post) ∧
      AgreesOff (headerBytes (pre ++ carve 0 need ⟨PSP_SEG, b.size⟩ ++ post)) mem mem' ∧
      ∀ c ∈ pre, c.tag = 0 → c.size < need) ∨
    (mcbAllocateIn mem need = some (mem, 0, largestFree 0 bs) ∧
      ∀ c ∈ bs, c.tag = 0 → c.size < need) := by
  obtain ⟨r, hr, hfit⟩ := mcbFindFree_spec h need
  rcases hfit with ⟨pre, b, post, rfl, hseg, htag, hneed, hlow⟩ | ⟨rfl, hno⟩
  · left
    have hspan := h.span_eq
    have hlt : r.1 + 1 < 65536 := by rw [hseg]; simp only [MCB_ARENA_START]; omega
    have hne : ¬ r.1 = 0 := by rw [hseg]; simp only [MCB_ARENA_START]; omega
    obtain ⟨hc, hoff⟩ := mcbSplit_chain h need
    obtain ⟨n, rest, hb, hb'⟩ := carve_tag need PSP_SEG b
    rw [hb] at hc hoff
    have hc' : Chain (mcbSplit mem (MCB_ARENA_START + span pre) need)
        (pre ++ ⟨b.tag, n⟩ :: (rest ++ post)) := by simpa using hc
    have hfin := retag_chain hc' (o := PSP_SEG) (by decide)
    refine ⟨writew (mcbSplit mem (MCB_ARENA_START + span pre) need)
      ((MCB_ARENA_START + span pre) * 16 + 1) PSP_SEG, pre, b, post, rfl, htag, hneed,
      ⟨r.2, ?_⟩, ?_, ?_, hlow⟩
    · simp only [mcbAllocateIn, hr, if_neg hne, Nat.mod_eq_of_lt hlt]
      rw [hseg]
    · rw [hb']
      simpa using hfin
    · rw [hb']
      have hsame := headerBytes_retag pre (rest ++ post) b.tag PSP_SEG n
      simp only [List.append_assoc, List.cons_append] at hoff ⊢
      rw [hsame] at hoff
      exact hoff.trans ((writew_owner_off _ _ _).mono
        (hdrBytes_subset (mem_place_mid pre (rest ++ post) ⟨PSP_SEG, n⟩)))
  · right
    exact ⟨by simp only [mcbAllocateIn, hr, if_pos], hno⟩

/-! ### Freeing -/

theorem mcbFreeIn_chain {mem : Mem} {pre post : List (Block Nat)} {b : Block Nat}
    (h : Chain mem (pre ++ b :: post)) :
    (mcbFreeIn mem (MCB_ARENA_START + span pre + 1)).2 = true ∧
      Chain (mcbFreeIn mem (MCB_ARENA_START + span pre + 1)).1 (pre ++ release 0 b post) ∧
      AgreesOff (headerBytes (pre ++ b :: post)) mem
        (mcbFreeIn mem (MCB_ARENA_START + span pre + 1)).1 := by
  have hd := h.header
  have hspan := h.span_eq
  have hseg : (MCB_ARENA_START + span pre + 1 + 65535) % 65536 = MCB_ARENA_START + span pre := by
    simp only [MCB_ARENA_START]; omega
  have hc := retag_chain h (o := 0) (by decide)
  have hd' := hc.header
  have hsub := hdrBytes_subset (mem_place_mid pre post b)
  have hoff := (writew_owner_off mem (MCB_ARENA_START + span pre) 0).mono hsub
  simp only [mcbFreeIn, hseg]
  rw [if_neg hd.type_ok]
  simp only [hd.type]
  cases post with
  | nil => simpa [release] using ⟨hc, hoff⟩
  | cons c post =>
    have hcn : Chain (writew mem ((MCB_ARENA_START + span pre) * 16 + 1) 0)
        ((pre ++ [⟨0, b.size⟩]) ++ c :: post) := by simpa using hc
    have hdn := hcn.header
    have hpos : (MCB_ARENA_START + span pre + 1 + b.size) % 65536 =
        MCB_ARENA_START + span (pre ++ [(⟨0, b.size⟩ : Block Nat)]) := by
      simp only [span_append, span_cons, span_nil, MCB_ARENA_START]
      simp only [span_cons] at hspan
      omega
    simp only [List.isEmpty_cons, Bool.false_eq_true, if_false, hd'.size, hpos, hdn.owner,
      show ¬ (0x4D = 0x5A) by decide]
    by_cases hfree : c.tag = 0
    · have hn : (b.size + 1 + c.size) % 65536 = b.size + 1 + c.size := by
        simp only [span_cons] at hspan
        omega
      have hS : ∀ x ∈ hdrBytes (MCB_ARENA_START + span pre),
          (MCB_ARENA_START + span pre) * 16 ≤ x ∧
          x < (MCB_ARENA_START + span pre + span [⟨0, b.size⟩, c]) * 16 := by
        intro x hx
        simp only [hdrBytes, Set.mem_Ico] at hx
        simp only [span_cons, span_nil]
        omega
      have hoff₂ : AgreesOff (hdrBytes (MCB_ARENA_START + span pre))
          (writew mem ((MCB_ARENA_START + span pre) * 16 + 1) 0)
          (writeb (writew (writew mem ((MCB_ARENA_START + span pre) * 16 + 1) 0)
            ((MCB_ARENA_START + span pre) * 16 + 3) (b.size + 1 + c.size))
            ((MCB_ARENA_START + span pre) * 16) (if post.isEmpty then 0x5A else 0x4D)) := by
        intro x hx
        simp only [hdrBytes, Set.mem_Ico, not_and] at hx
        rw [writeb_of_ne (by omega), writew_off _ _ _ x (by simp only [Set.mem_Ico]; omega)]
      have hedit := Chain.edit [⟨0, b.size⟩, c] [join ⟨0, b.size⟩ c]
        (by simpa using hc) (by simp) (by simp)
        (by simp only [join, span_cons, span_nil]; omega) hoff₂ hS ?_
      · simp only [hfree, ne_eq, not_true, if_false, hdn.type, hdn.size, hn]
        refine ⟨trivial, ?_, hoff.trans (hoff₂.mono hsub)⟩
        simpa [release, hfree] using hedit
      · refine ⟨⟨?_, ?_, ?_⟩, trivial⟩
        · rw [readb_writeb]
          cases post <;> rfl
        · simp (disch := omega) only [readw_writeb_of_ne, readw_writew_of_disjoint, readw_writew,
            join]
        · simp (disch := omega) only [readw_writeb_of_ne, readw_writew, join]
          exact hn
    · simp only [ne_eq, hfree, not_false_eq_true, if_true]
      exact ⟨trivial, by simpa [release, hfree] using hc, hoff⟩

/-! ### Resizing -/

/-- Growing into a free successor: the two headers become one. -/
theorem join_chain {mem : Mem} {pre post : List (Block Nat)} {b c : Block Nat}
    (h : Chain mem (pre ++ b :: c :: post)) :
    Chain (writew (writeb mem ((MCB_ARENA_START + span pre) * 16) (if post.isEmpty then 0x5A else 0x4D))
        ((MCB_ARENA_START + span pre) * 16 + 3) (join b c).size) (pre ++ join b c :: post) ∧
      AgreesOff (headerBytes (pre ++ b :: c :: post)) mem
        (writew (writeb mem ((MCB_ARENA_START + span pre) * 16) (if post.isEmpty then 0x5A else 0x4D))
          ((MCB_ARENA_START + span pre) * 16 + 3) (join b c).size) := by
  have hspan := h.span_eq
  have hd := h.header
  simp only [span_cons] at hspan
  have hoff : AgreesOff (hdrBytes (MCB_ARENA_START + span pre)) mem
      (writew (writeb mem ((MCB_ARENA_START + span pre) * 16) (if post.isEmpty then 0x5A else 0x4D))
        ((MCB_ARENA_START + span pre) * 16 + 3) (join b c).size) := by
    intro x hx
    simp only [hdrBytes, Set.mem_Ico, not_and] at hx
    rw [writew_off _ _ _ x (by simp only [Set.mem_Ico]; omega), writeb_of_ne (by omega)]
  refine ⟨?_, hoff.mono (hdrBytes_subset (mem_place_mid pre (c :: post) b))⟩
  have hedit := Chain.edit [b, c] [join b c] (by simpa using h) (by simp) (by simp)
    (by simp only [join, span_cons, span_nil]; omega) hoff ?_ ?_
  · simpa using hedit
  · intro x hx
    simp only [hdrBytes, Set.mem_Ico] at hx
    simp only [span_cons, span_nil]
    omega
  · refine ⟨⟨?_, ?_, ?_⟩, trivial⟩
    · rw [readb_writew_of_ne (by omega) (by omega), readb_writeb]
      cases post <;> rfl
    · rw [readw_writew_of_disjoint (by omega), readw_writeb_of_ne (by omega) (by omega)]
      exact hd.owner
    · rw [readw_writew]
      refine Nat.mod_eq_of_lt ?_
      simp only [join]
      omega

theorem mcbResizeIn_chain {mem : Mem} {pre post : List (Block Nat)} {b : Block Nat}
    (h : Chain mem (pre ++ b :: post)) (n : Nat) :
    Chain (mcbResizeIn mem (MCB_ARENA_START + span pre + 1) n).1 (pre ++ resize 0 n b post) ∧
      AgreesOff (headerBytes (pre ++ b :: post) ∪ headerBytes (pre ++ resize 0 n b post)) mem
        (mcbResizeIn mem (MCB_ARENA_START + span pre + 1) n).1 ∧
      (mcbResizeIn mem (MCB_ARENA_START + span pre + 1) n).2.1 = resizeReach 0 n b post ∧
      (b.size < n →
        (mcbResizeIn mem (MCB_ARENA_START + span pre + 1) n).2.2 = resizeMost 0 b post) := by
  have hd := h.header
  have hspan := h.span_eq
  have hseg : (MCB_ARENA_START + span pre + 1 + 65535) % 65536 = MCB_ARENA_START + span pre := by
    simp only [MCB_ARENA_START]; omega
  obtain ⟨hcs, hos⟩ := mcbSplit_chain h n
  simp only [mcbResizeIn, hseg]
  rw [if_neg hd.type_ok]
  simp only [hd.type, hd.size]
  by_cases hshrink : n ≤ b.size
  · -- the block shrinks, or keeps its size: `carve`
    obtain ⟨hr, hreach⟩ := resize_of_le hshrink 0 post
    rw [hr, hreach, ← List.append_assoc]
    by_cases heq : n = b.size
    · rw [if_pos heq, carve_of_le 0 (Nat.le_of_eq heq.symm)]
      exact ⟨by simpa using h, AgreesOff.refl _ _, heq.symm, fun hlt => absurd hshrink (Nat.not_le.mpr hlt)⟩
    · rw [if_neg heq, if_pos (by omega)]
      exact ⟨hcs, hos.mono Set.subset_union_right, rfl, fun hlt => absurd hshrink (Nat.not_le.mpr hlt)⟩
  · rw [if_neg (by omega), if_neg (fun hlt => hshrink (Nat.le_of_lt hlt))]
    cases post with
    | nil =>
      obtain ⟨hr, hreach⟩ := resize_stuck (Nat.lt_of_not_le hshrink) 0 [] (by simp)
      rw [hr, hreach]
      exact ⟨h, AgreesOff.refl _ _, rfl, fun _ => rfl⟩
    | cons c post =>
      have hcn : Chain mem ((pre ++ [b]) ++ c :: post) := by simpa using h
      have hdn := hcn.header
      simp only [span_cons] at hspan
      have hpos : (MCB_ARENA_START + span pre + 1 + b.size) % 65536 =
          MCB_ARENA_START + span (pre ++ [b]) := by
        simp only [span_append, span_cons, span_nil, MCB_ARENA_START]
        omega
      have hcomb : (b.size + 1 + c.size) % 65536 = (join b c).size := by
        simp only [join]
        omega
      simp only [List.isEmpty_cons, Bool.false_eq_true, if_false, hpos, hdn.owner, hdn.size, hcomb,
        hdn.type, show ¬ (0x4D = 0x5A) by decide]
      by_cases hfree : c.tag = 0 ∧ n ≤ (join b c).size
      · -- `join`, then `carve` what is left
        obtain ⟨hcj, hoj⟩ := join_chain h
        obtain ⟨hcs', hos'⟩ := mcbSplit_chain hcj n
        obtain ⟨hr, hreach⟩ := resize_grow post (Nat.lt_of_not_le hshrink) hfree.1 hfree.2
        simp only [hfree.1, ne_eq, not_true, if_false, Nat.not_lt.mpr hfree.2]
        rw [hr, hreach, ← List.append_assoc]
        exact ⟨hcs', hoj.union hos', rfl, fun _ => by rw [resizeMost, if_pos hfree.1]⟩
      · obtain ⟨hr, hreach⟩ := resize_stuck (Nat.lt_of_not_le hshrink) 0 (c :: post)
          (by simpa using hfree)
        rw [hr, hreach]
        by_cases htag : c.tag = 0
        · have hroom : (join b c).size < n := Nat.lt_of_not_le fun hn => hfree ⟨htag, hn⟩
          simp only [htag, ne_eq, not_true, if_false, hroom, if_true]
          exact ⟨h, AgreesOff.refl _ _, trivial, fun _ => by rw [resizeMost, if_pos htag]⟩
        · simp only [ne_eq, htag, not_false_eq_true, if_true]
          exact ⟨h, AgreesOff.refl _ _, trivial, fun _ => by rw [resizeMost, if_neg htag]⟩

/-! ### Initialising -/

theorem mcbInit_chain (mem : Mem) : Chain (mcbInit mem) [⟨0, 0x7FFF⟩] where
  ne_nil := by simp
  tiles := rfl
  links := by
    refine ⟨⟨?_, ?_, ?_⟩, trivial⟩ <;> simp only [mcbInit, PSP_SEG, MCB_ARENA_START, MCB_ARENA_END]
    · simp (disch := omega) only [readb_writew_of_ne, readb_writeb_of_ne, readb_writeb]
      rfl
    · simp (disch := omega) only [readw_writew_of_disjoint, readw_writeb_of_ne, readw_writew]
    · simp (disch := omega) only [readw_writew_of_disjoint, readw_writeb_of_ne, readw_writew]

end Dosiz.Mcb
