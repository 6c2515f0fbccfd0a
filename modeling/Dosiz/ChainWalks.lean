/-
  Dosiz/ChainWalks.lean
  =====================
  **The walks over the headers, for every content of memory.**

  The guest can write the headers.  `mcb_find_free` and the walk of AX=0500 go from header to
  header by `seg + 1 + size` modulo 65536, so each of them ends if and only if it does not
  come back to a header it has passed (`findFree_returns_iff`, `freeInfo_returns_iff`).
  `walks_sound_iff` says in addition when a walk that ends reports what is wrong.
-/
import Dosiz.FreeMemory
import Dosiz.Walks

namespace Dosiz

open ByteMemory BlockChain Machine Mcb Walks

/-! ### The steps from header to header -/

/-- A header at `seg` that `mcb_find_free` takes for a free block with room for `need`. -/
def FitsAt (mem : Mem) (need seg : Nat) : Prop :=
  (readb mem (seg * 16) = 0x4D ∨ readb mem (seg * 16) = 0x5A) ∧ readw mem (seg * 16 + 1) = 0 ∧
    need ≤ readw mem (seg * 16 + 3)

instance (mem : Mem) (need seg : Nat) : Decidable (FitsAt mem need seg) :=
  inferInstanceAs (Decidable (_ ∧ _))

/-- Where `mcb_find_free` goes from the header at `seg`: it stops at a byte that starts no header,
    at a free block with room, and at a 'Z'. -/
def findStep (mem : Mem) (need seg : Nat) : Option Nat :=
  if readb mem (seg * 16) ≠ 0x4D then none
  else if readw mem (seg * 16 + 1) = 0 ∧ need ≤ readw mem (seg * 16 + 3) then none
  else some ((seg + 1 + readw mem (seg * 16 + 3)) % 65536)

/-- Where AX=0500 goes: it stops at the arena's end and at a 'Z', and takes any other byte for
    an 'M'. -/
def infoStep (mem : Mem) (seg : Nat) : Option Nat :=
  if MCB_ARENA_END ≤ seg ∨ readb mem (seg * 16) = 0x5A then none
  else some ((seg + 1 + readw mem (seg * 16 + 3)) % 65536)

theorem findStep_noM {mem : Mem} {need seg : Nat} (h : readb mem (seg * 16) ≠ 0x4D) :
    findStep mem need seg = none := if_pos h

theorem findStep_fits {mem : Mem} {need seg : Nat}
    (h : readw mem (seg * 16 + 1) = 0 ∧ need ≤ readw mem (seg * 16 + 3)) :
    findStep mem need seg = none := by
  unfold findStep
  split_ifs
  · rfl
  · rfl

theorem findStep_next {mem : Mem} {need seg : Nat} (ht : readb mem (seg * 16) = 0x4D)
    (h : ¬ (readw mem (seg * 16 + 1) = 0 ∧ need ≤ readw mem (seg * 16 + 3))) :
    findStep mem need seg = some ((seg + 1 + readw mem (seg * 16 + 3)) % 65536) := by
  unfold findStep
  rw [if_neg fun hne => hne ht, if_neg h]

/-- One step of `mcb_find_free`'s loop: on to the next header, or an answer. -/
theorem mcbWalk_succ (mem : Mem) (need fuel seg largest : Nat) :
    (∃ l, mcbWalk mem need (fuel + 1) seg largest = match findStep mem need seg with
      | some next => mcbWalk mem need fuel next l
      | none => some ((if FitsAt mem need seg then seg else 0), l)) := by
  rw [mcbWalk]
  dsimp only
  by_cases hbad : readb mem (seg * 16) ≠ 0x4D ∧ readb mem (seg * 16) ≠ 0x5A
  · have hf : ¬ FitsAt mem need seg := fun h => h.1.elim hbad.1 hbad.2
    rw [if_pos hbad, findStep_noM hbad.1]
    exact ⟨largest, by rw [if_neg hf]⟩
  have htype : readb mem (seg * 16) = 0x4D ∨ readb mem (seg * 16) = 0x5A := by omega
  rw [if_neg hbad]
  by_cases hfit : readw mem (seg * 16 + 1) = 0 ∧ need ≤ readw mem (seg * 16 + 3)
  · have hf : FitsAt mem need seg := ⟨htype, hfit⟩
    rw [if_pos hfit, findStep_fits hfit]
    exact ⟨largest, by rw [if_pos hf]⟩
  have hf : ¬ FitsAt mem need seg := fun h => hfit h.2
  rw [if_neg hfit]
  by_cases hz : readb mem (seg * 16) = 0x5A
  · rw [if_pos hz, findStep_noM (by rw [hz]; decide)]
    exact ⟨_, by rw [if_neg hf]⟩
  · rw [if_neg hz, findStep_next (htype.resolve_right hz) hfit]
    exact ⟨_, rfl⟩

/-- The walk is out of fuel just where the steps go further. -/
theorem mcbWalk_eq_none_iff (mem : Mem) (need : Nat) : ∀ fuel seg largest,
    mcbWalk mem need fuel seg largest = none ↔ (after (findStep mem need) fuel seg).isSome := by
  intro fuel
  induction fuel with
  | zero =>
    intro seg largest
    exact ⟨fun _ => rfl, fun _ => rfl⟩
  | succ fuel ih =>
    intro seg largest
    obtain ⟨l, hl⟩ := mcbWalk_succ mem need fuel seg largest
    rw [hl, after]
    cases findStep mem need seg with
    | none => simp
    | some next =>
      rw [Option.bind_some]
      exact ih next l

/-- What the walk answers: the place it stops at, where that is a free block with room. -/
theorem mcbWalk_stop (mem : Mem) (need : Nat) : ∀ fuel seg largest r,
    mcbWalk mem need fuel seg largest = some r →
      ∃ n s, after (findStep mem need) n seg = some s ∧ findStep mem need s = none ∧
        r.1 = if FitsAt mem need s then s else 0 := by
  intro fuel
  induction fuel with
  | zero =>
    intro seg largest r h
    cases h
  | succ fuel ih =>
    intro seg largest r h
    obtain ⟨l, hl⟩ := mcbWalk_succ mem need fuel seg largest
    rw [hl] at h
    cases hstep : findStep mem need seg with
    | none =>
      rw [hstep] at h
      obtain rfl := Option.some.inj h
      exact ⟨0, seg, rfl, hstep, rfl⟩
    | some next =>
      rw [hstep] at h
      obtain ⟨n, s, hn, hs, hr⟩ := ih next l r h
      refine ⟨n + 1, s, ?_, hs, hr⟩
      rw [after, hstep, Option.bind_some, hn]

theorem largestWalk_eq_none_iff (mem : Mem) : ∀ fuel seg largest,
    largestWalk mem fuel seg largest = none ↔ (after (infoStep mem) fuel seg).isSome := by
  intro fuel
  induction fuel with
  | zero =>
    intro seg largest
    exact ⟨fun _ => rfl, fun _ => rfl⟩
  | succ fuel ih =>
    intro seg largest
    rw [largestWalk, after, infoStep]
    dsimp only
    by_cases hend : MCB_ARENA_END ≤ seg
    · rw [if_pos hend, if_pos (Or.inl hend)]
      simp
    · rw [if_neg hend]
      by_cases hz : readb mem (seg * 16) = 0x5A
      · rw [if_pos hz, if_pos (Or.inr hz)]
        simp
      · rw [if_neg hz, if_neg (not_or.mpr ⟨hend, hz⟩), Option.bind_some]
        exact ih _ _

/-! ### When the walks end -/

theorem findStep_lt {mem : Mem} {need u v : Nat} (h : findStep mem need u = some v) : v < 65536 := by
  unfold findStep at h
  split_ifs at h
  obtain rfl := Option.some.inj h
  exact Nat.mod_lt _ (by decide)

theorem infoStep_lt {mem : Mem} {u v : Nat} (h : infoStep mem u = some v) : v < 65536 := by
  unfold infoStep at h
  split_ifs at h
  obtain rfl := Option.some.inj h
  exact Nat.mod_lt _ (by decide)

/-- A walk over segments ends within 65536 steps, or comes back. -/
theorem segment_walk {step : Nat → Option Nat} (hstep : ∀ u v, step u = some v → v < 65536) :
    after step 65536 MCB_ARENA_START = none ∨ Repeats step MCB_ARENA_START := by
  have hin : ∀ n t, after step n MCB_ARENA_START = some t → t ∈ Finset.range 65536 := fun n t ht =>
    Finset.mem_range.mpr (after_invariant (P := (· < 65536)) (by decide) hstep ht)
  have h := halts_or_repeats (Finset.range 65536) hin
  rw [Finset.card_range] at h
  exact h

/-- `mcb_find_free` returns if and only if the headers it passes do not lead back to one of them;
    the fuel of `mcbFindFree` is then enough. -/
theorem findFree_returns_iff (mem : Mem) (need : Nat) :
    ((∃ fuel r, mcbWalk mem need fuel MCB_ARENA_START 0 = some r) ↔
      ¬ Repeats (findStep mem need) MCB_ARENA_START) ∧
    ((∃ r, mcbFindFree mem need = some r) ↔ ¬ Repeats (findStep mem need) MCB_ARENA_START) := by
  have hends : ∀ fuel r, mcbWalk mem need fuel MCB_ARENA_START 0 = some r →
      ¬ Repeats (findStep mem need) MCB_ARENA_START := by
    intro fuel r h hrep
    rw [(mcbWalk_eq_none_iff mem need fuel _ 0).mpr (hrep.goes_on fuel)] at h
    cases h
  have hfound : ¬ Repeats (findStep mem need) MCB_ARENA_START →
      ∃ r, mcbFindFree mem need = some r := by
    intro h
    have hstop := (segment_walk fun u v => findStep_lt).resolve_right h
    refine Option.ne_none_iff_exists'.mp fun hnone => ?_
    have hsome := (mcbWalk_eq_none_iff mem need 65536 _ 0).mp hnone
    rw [hstop] at hsome
    cases hsome
  constructor
  · constructor
    · rintro ⟨fuel, r, h⟩
      exact hends fuel r h
    · exact fun h => ⟨65536, hfound h⟩
  · constructor
    · rintro ⟨r, h⟩
      exact hends 65536 r h
    · exact hfound

/-- The same for the walk of AX=0500. -/
theorem freeInfo_returns_iff (mem : Mem) :
    (∃ fuel r, largestWalk mem fuel MCB_ARENA_START 0 = some r) ↔
      ¬ Repeats (infoStep mem) MCB_ARENA_START := by
  constructor
  · rintro ⟨fuel, r, h⟩ hrep
    rw [(largestWalk_eq_none_iff mem fuel _ 0).mpr (hrep.goes_on fuel)] at h
    cases h
  · intro h
    have hstop := (segment_walk fun u v => infoStep_lt).resolve_right h
    refine ⟨65536, Option.ne_none_iff_exists'.mp fun hnone => ?_⟩
    have hsome := (largestWalk_eq_none_iff mem 65536 _ 0).mp hnone
    rw [hstop] at hsome
    cases hsome

/-! ### When they report what is wrong -/

/-- `mcb_find_free` returns, with a failure where the headers are no chain. -/
def FindSound (mem : Mem) (need : Nat) : Prop :=
  ∃ fuel r, mcbWalk mem need fuel MCB_ARENA_START 0 = some r ∧
    ((¬ ∃ bs, Chain mem bs) → r.1 = 0)

/-- The headers passed do not lead back to one of them; and they are a chain, or none of them,
    nor the one the walk stops at, stands for a free block with room (a block at segment 0 counts as
    failure). -/
def FindGood (mem : Mem) (need : Nat) : Prop :=
  ¬ Repeats (findStep mem need) MCB_ARENA_START ∧ ((∃ bs, Chain mem bs) ∨
    ∀ n s, after (findStep mem need) n MCB_ARENA_START = some s → s ≠ 0 → ¬ FitsAt mem need s)

/-- AX=0500 returns, with an error where the headers are no chain. -/
def InfoSound (m : Machine) : Prop :=
  ∃ r cf, int31_0500 m = some (r, cf) ∧ ((¬ ∃ bs, Chain (mcbReady m).mem bs) → cf = true)

theorem findSound_iff (mem : Mem) (need : Nat) : FindSound mem need ↔ FindGood mem need := by
  constructor
  · rintro ⟨fuel, r, hr, hfail⟩
    refine ⟨(findFree_returns_iff mem need).1.mp ⟨fuel, r, hr⟩, ?_⟩
    by_cases hchain : ∃ bs, Chain mem bs
    · exact Or.inl hchain
    · right
      intro n s hn hs hfit
      obtain ⟨k, t, hk, ht, hrt⟩ := mcbWalk_stop mem need fuel _ 0 r hr
      obtain rfl := stop_unique hn (findStep_fits hfit.2) hk ht
      rw [if_pos hfit, hfail hchain] at hrt
      exact hs hrt.symm
  · rintro ⟨hrep, hgood⟩
    obtain ⟨fuel, r, hr⟩ := (findFree_returns_iff mem need).1.mpr hrep
    refine ⟨fuel, r, hr, fun hno => ?_⟩
    obtain ⟨n, s, hn, -, hrs⟩ := mcbWalk_stop mem need fuel _ 0 r hr
    rw [hrs]
    split_ifs with hfit
    · by_contra hs
      exact (hgood.resolve_left hno) n s hn hs hfit
    · rfl

theorem infoSound_iff (m : Machine) : InfoSound m ↔ ∃ bs, Chain (mcbReady m).mem bs := by
  constructor
  · rintro ⟨r, cf, hr, hfail⟩
    by_contra hno
    have hcf := hfail hno
    unfold int31_0500 succeed at hr
    dsimp only at hr
    split at hr
    · cases hr
    · rw [hcf] at hr
      cases hr
  · rintro ⟨bs, hc⟩
    obtain ⟨r, hr, -⟩ := int31_0500_spec hc
    exact ⟨r, false, hr, fun hno => absurd ⟨bs, hc⟩ hno⟩

/-- **The walks over the headers**, for every content of memory and every request. -/
theorem walks_sound_iff (m : Machine) :
    (∀ need, FindSound (mcbReady m).mem need ↔ FindGood (mcbReady m).mem need) ∧
    ((∃ fuel r, largestWalk (mcbReady m).mem fuel MCB_ARENA_START 0 = some r) ↔
      ¬ Repeats (infoStep (mcbReady m).mem) MCB_ARENA_START) ∧
    (InfoSound m ↔ ∃ bs, Chain (mcbReady m).mem bs) :=
  ⟨fun need => findSound_iff _ need, freeInfo_returns_iff _, infoSound_iff m⟩

/-- An owned block of FFFFh paragraphs at the start of the arena: the next header is itself. -/
def selfHeader : Mem := writew (writew (writeb (fun _ => 0) 0x20000 0x4D) 0x20001 1) 0x20003 0xFFFF

/-- On this header both walks go on forever. -/
theorem walks_hang : (∀ need fuel, mcbWalk selfHeader need fuel MCB_ARENA_START 0 = none) ∧
    ∀ fuel, largestWalk selfHeader fuel MCB_ARENA_START 0 = none := by
  have htype : readb selfHeader (MCB_ARENA_START * 16) = 0x4D := by decide +kernel
  have howner : readw selfHeader (MCB_ARENA_START * 16 + 1) = 1 := by decide +kernel
  have hsize : readw selfHeader (MCB_ARENA_START * 16 + 3) = 0xFFFF := by decide +kernel
  constructor
  · intro need fuel
    have hstep : findStep selfHeader need MCB_ARENA_START = some MCB_ARENA_START := by
      rw [findStep, htype, howner, hsize, if_neg fun h => h rfl, if_neg fun h => absurd h.1 (by decide)]
      rfl
    have hrep : Repeats (findStep selfHeader need) MCB_ARENA_START :=
      ⟨0, 1, MCB_ARENA_START, by decide, rfl, by rw [after, hstep]; rfl⟩
    exact (mcbWalk_eq_none_iff _ _ _ _ _).mpr (hrep.goes_on fuel)
  · intro fuel
    have hstep : infoStep selfHeader MCB_ARENA_START = some MCB_ARENA_START := by
      rw [infoStep, htype, hsize, if_neg (by decide)]
      rfl
    have hrep : Repeats (infoStep selfHeader) MCB_ARENA_START :=
      ⟨0, 1, MCB_ARENA_START, by decide, rfl, by rw [after, hstep]; rfl⟩
    exact (largestWalk_eq_none_iff _ _ _ _).mpr (hrep.goes_on fuel)

end Dosiz
