/-
  Dosiz/Fragments.lean
  ====================
  **Whether the free blocks join up again.**

  `mcb_free` joins a block with a free successor only, and `mcb_split` leaves what it cuts
  off as a block of its own.  So free neighbours can come about in two ways: a block is
  freed behind a free one, or a block is cut in front of a free one.  In a run without
  these (`Coalescing`) no two neighbours are ever free, and once everything is freed the
  arena is one block (`fragments_rejoin`); `fragments_stay` is a run with one of them.
-/
import Dosiz.McbCalls

namespace Dosiz

open ByteMemory BlockChain Machine Mcb Transition

/-! ### The edits and free neighbours -/

section Edits

variable {pre post : List (Block Nat)} {b : Block Nat}

theorem coalesced_append {xs ys : List (Block Nat)} : Coalesced 0 (xs ++ ys) ↔
    Coalesced 0 xs ∧ Coalesced 0 ys ∧
      ∀ x ∈ xs.getLast?, ∀ y ∈ ys.head?, ¬ (x.tag = 0 ∧ y.tag = 0) := List.isChain_append

/-- The head of a stretch may be replaced by a block that is not free unless the head was. -/
theorem coalesced_head {xs ys : List (Block Nat)} (h : Coalesced 0 (pre ++ b :: xs)) (c : Block Nat)
    (hc : c.tag = 0 → b.tag = 0 ∨ ∀ x ∈ pre.getLast?, x.tag ≠ 0) (hys : Coalesced 0 (c :: ys)) :
    Coalesced 0 (pre ++ c :: ys) := by
  obtain ⟨hpre, -, hseam⟩ := coalesced_append.mp h
  refine coalesced_append.mpr ⟨hpre, hys, ?_⟩
  intro x hx y hy hfree
  obtain rfl := Option.some.inj hy
  rcases hc hfree.2 with hb | hlast
  · exact hseam x hx b rfl ⟨hfree.1, hb⟩
  · exact hlast x hx hfree.1

theorem coalesced_cons {xs : List (Block Nat)} : Coalesced 0 (b :: xs) ↔
    (∀ y ∈ xs.head?, ¬ (b.tag = 0 ∧ y.tag = 0)) ∧ Coalesced 0 xs := by
  cases xs with
  | nil => simp [Coalesced]
  | cons c xs => simp [Coalesced, List.isChain_cons_cons]

theorem coalesced_tail (h : Coalesced 0 (pre ++ b :: post)) : Coalesced 0 (b :: post) :=
  (coalesced_append.mp h).2.1

/-- Cutting a block that is not followed by a free one. -/
theorem coalesced_carve {n : Nat} (h : Coalesced 0 (b :: post))
    (hcut : n + 1 < b.size → b.tag ≠ 0 ∧ ∀ y ∈ post.head?, y.tag ≠ 0) :
    ∃ size rest, carve 0 n b ++ post = ⟨b.tag, size⟩ :: rest ∧
      Coalesced 0 (⟨b.tag, size⟩ :: rest) := by
  obtain ⟨hseam, hpost⟩ := coalesced_cons.mp h
  unfold carve
  split_ifs with hsmall
  · exact ⟨b.size, post, rfl, h⟩
  · obtain ⟨hb, hnext⟩ := hcut (by omega)
    refine ⟨n, ⟨0, b.size - n - 1⟩ :: post, rfl, coalesced_cons.mpr ⟨?_, ?_⟩⟩
    · intro y _ hfree
      exact hb hfree.1
    · exact coalesced_cons.mpr ⟨fun y hy hfree => hnext y hy hfree.2, hpost⟩

theorem coalesced_alloc {n : Nat} (h : Coalesced 0 (pre ++ b :: post)) (hb : b.tag = 0) :
    Coalesced 0 (pre ++ carve 0 n ⟨PSP_SEG, b.size⟩ ++ post) := by
  obtain ⟨hseam, hpost⟩ := coalesced_cons.mp (coalesced_tail h)
  have hnext : ∀ y ∈ post.head?, y.tag ≠ 0 := fun y hy hfree => hseam y hy ⟨hb, hfree⟩
  have hpsp : PSP_SEG ≠ 0 := by decide
  have howned : Coalesced 0 ((⟨PSP_SEG, b.size⟩ : Block Nat) :: post) :=
    coalesced_cons.mpr ⟨fun y _ hfree => hpsp hfree.1, hpost⟩
  obtain ⟨size, rest, hcut, hrest⟩ := coalesced_carve (n := n) howned fun _ => ⟨hpsp, hnext⟩
  rw [List.append_assoc, hcut]
  exact coalesced_head h _ (fun hfree => absurd hfree hpsp) hrest

theorem coalesced_release (h : Coalesced 0 (pre ++ b :: post)) (hlast : ∀ x ∈ pre.getLast?, x.tag ≠ 0) :
    Coalesced 0 (pre ++ release 0 b post) := by
  obtain ⟨-, hpost⟩ := coalesced_cons.mp (coalesced_tail h)
  cases post with
  | nil => exact coalesced_head h _ (fun _ => Or.inr hlast) (coalesced_cons.mpr ⟨by simp, hpost⟩)
  | cons c post =>
    obtain ⟨hseam, hpost'⟩ := coalesced_cons.mp hpost
    rw [release]
    split_ifs with hc
    · refine coalesced_head h _ (fun _ => Or.inr hlast) (coalesced_cons.mpr ⟨?_, hpost'⟩)
      exact fun y hy hfree => hseam y hy ⟨hc, hfree.2⟩
    · refine coalesced_head h _ (fun _ => Or.inr hlast) (coalesced_cons.mpr ⟨?_, hpost⟩)
      intro y hy hfree
      obtain rfl := Option.some.inj hy
      exact hc hfree.2

theorem coalesced_resize {n : Nat} (h : Coalesced 0 (pre ++ b :: post))
    (hcut : n + 1 < b.size → b.tag ≠ 0 ∧ ∀ y ∈ post.head?, y.tag ≠ 0) :
    Coalesced 0 (pre ++ resize 0 n b post) := by
  have htail := coalesced_tail h
  rcases resize_cases 0 n b post with ⟨hr, -⟩ | ⟨c, post', rfl, hc, -, hr, -⟩
  · obtain ⟨size, rest, heq, hrest⟩ := coalesced_carve htail hcut
    rw [hr, heq]
    exact coalesced_head h _ (fun hfree => Or.inl hfree) hrest
  · -- the block takes in a free successor, after which comes one that is not free
    obtain ⟨hseam, hpost⟩ := coalesced_cons.mp htail
    obtain ⟨hseam', hpost'⟩ := coalesced_cons.mp hpost
    have hb : b.tag ≠ 0 := fun hb => hseam c rfl ⟨hb, hc⟩
    have hjoin : Coalesced 0 (join b c :: post') :=
      coalesced_cons.mpr ⟨fun y _ hfree => hb hfree.1, hpost'⟩
    obtain ⟨size, rest, heq, hrest⟩ := coalesced_carve (n := n) hjoin
      fun _ => ⟨hb, fun y hy hfree => hseam' y hy ⟨hc, hfree⟩⟩
    rw [hr, heq]
    exact coalesced_head h _ (fun hfree => absurd hfree hb) hrest

end Edits

/-! ### Runs -/

/-- The block that ends where `q` starts is free. -/
def FreeBefore (bs : List (Block Nat)) (q : Nat) : Prop :=
  ∃ p c, (p, c) ∈ place MCB_ARENA_START bs ∧ p + 1 + c.size = q ∧ c.tag = 0

/-- The block after `b` is free. -/
def FreeAfter (bs : List (Block Nat)) (q : Nat) (b : Block Nat) : Prop :=
  ∃ c, (q + 1 + b.size, c) ∈ place MCB_ARENA_START bs ∧ c.tag = 0

/-- No header stands before the segment `s`: a call with it is refused. -/
def NoHeader (m : Machine) (s : Nat) : Prop :=
  m.mcbInitialised = false ∨
    (readb m.mem ((s + 65535) % 65536 * 16) ≠ 0x4D ∧ readb m.mem ((s + 65535) % 65536 * 16) ≠ 0x5A)

/-- The segment `s` is that of the block `b` of the chain. -/
def BlockSeg (m : Machine) (s : Nat) (bs : List (Block Nat)) (b : Block Nat) : Prop :=
  Chain m.mem bs ∧ (s - 1, b) ∈ place MCB_ARENA_START bs ∧ 0 < s

/-- Guest code leaves the headers alone; AH=49 is not made on a block behind a free one; AH=4A
    does not cut a block in front of a free one, nor a free block.  A call on a segment without a
    header does nothing, and AH=4A answers for blocks below the arena without looking. -/
def Coalescing (m : Machine) : ArenaEvent → Prop
  | .guest cpu mem => ProperArgs m (.guest cpu mem)
  | .call .ah48 => FlagsClear m .ah48
  | .call .ah49 => FlagsClear m .ah49 ∧ (NoHeader m (m.segVal .es) ∨
      ∃ bs b, BlockSeg m (m.segVal .es) bs b ∧ ¬ FreeBefore bs (m.segVal .es - 1))
  | .call .ah4A => FlagsClear m .ah4A ∧ (m.segVal .es = PSP_SEG ∨ m.segVal .es < MCB_ARENA_START ∨
      NoHeader m (m.segVal .es) ∨ ∃ bs b, BlockSeg m (m.segVal .es) bs b ∧
        (m.bx + 1 < b.size → b.tag ≠ 0 ∧ ¬ FreeAfter bs (m.segVal .es - 1) b))
  | .call _ => False

/-- The chain, also the one the first call will make, has no free neighbours. -/
def JoinedUp (m : Machine) : Prop := ∃ bs, Chain (mcbReady m).mem bs ∧ Coalesced 0 bs

theorem joinedUp_fresh {m : Machine} (h : m.mcbInitialised = false) : JoinedUp m :=
  ⟨_, chain_ready_of_fresh h, List.isChain_singleton _⟩

theorem joinedUp_of_init {m : Machine}
    (h : m.mcbInitialised = true → ∃ bs, Chain m.mem bs ∧ Coalesced 0 bs) : JoinedUp m := by
  cases hi : m.mcbInitialised with
  | false => exact joinedUp_fresh hi
  | true =>
    obtain ⟨bs, hc, hco⟩ := h hi
    refine ⟨bs, ?_, hco⟩
    rw [mcbReady_of_init hi]
    exact hc

theorem JoinedUp.chain {m : Machine} (h : JoinedUp m) (hi : m.mcbInitialised = true) :
    ∃ bs, Chain m.mem bs ∧ Coalesced 0 bs := by
  obtain ⟨bs, hc, hco⟩ := h
  rw [mcbReady_of_init hi] at hc
  exact ⟨bs, hc, hco⟩

/-- What the handler of a call leaves behind. -/
def LeavesJoined (c : MemCall) (m : Machine) : Prop :=
  ∀ r, c.serve m = some r → r.1.mcbInitialised = true → ∃ bs, Chain r.1.mem bs ∧ Coalesced 0 bs

theorem ah48_leavesJoined {m : Machine} (h : JoinedUp m) : LeavesJoined .ah48 m := by
  intro r hr _
  obtain ⟨bs, hc, hco⟩ := h
  simp only [MemCall.serve, int21_48] at hr
  rcases mcbAllocate_firstFit hc m.bx with
    ⟨pre, b, post, mem, largest, rfl, hfree, -, -, halloc, hc', -⟩ | ⟨halloc, -⟩
  · rw [halloc] at hr
    dsimp only at hr
    rw [if_neg (Nat.succ_ne_zero _)] at hr
    obtain rfl := Option.some.inj hr
    exact ⟨_, hc', coalesced_alloc hco hfree⟩
  · rw [halloc] at hr
    dsimp only at hr
    rw [if_pos rfl] at hr
    obtain rfl := Option.some.inj hr
    refine ⟨bs, ?_, hco⟩
    rw [setR16s_mem]
    exact hc

theorem mcbFree_noHeader {m : Machine} {s : Nat} (h : NoHeader m s) : mcbFree m s = (m, false) := by
  unfold mcbFree
  rcases h with h | h
  · rw [if_neg (by rw [h]; decide)]
  · have hin : mcbFreeIn m.mem s = (m.mem, false) := if_pos h
    rw [hin]
    split_ifs <;> rfl

theorem mcbResize_noHeader {m : Machine} {s : Nat} (h : NoHeader m s) (n : Nat) :
    mcbResize m s n = (m, 0, 0) := by
  unfold mcbResize
  rcases h with h | h
  · rw [if_neg (by rw [h]; decide)]
  · have hin : mcbResizeIn m.mem s n = (m.mem, 0, 0) := if_pos h
    rw [hin]
    split_ifs <;> rfl

theorem int21_49_reply {m : Machine} {r : Machine × Bool} (h : int21_49 m = some r) :
    r.1.mem = (mcbFree m (m.segVal .es)).1.mem ∧
      r.1.mcbInitialised = (mcbFree m (m.segVal .es)).1.mcbInitialised := by
  unfold int21_49 at h
  dsimp only at h
  split_ifs at h
  · obtain rfl := Option.some.inj h
    exact ⟨rfl, rfl⟩
  · obtain rfl := Option.some.inj h
    exact ⟨rfl, rfl⟩

theorem mcbFree_init (m : Machine) (s : Nat) :
    (mcbFree m s).1.mcbInitialised = m.mcbInitialised := by
  unfold mcbFree
  split_ifs <;> rfl

theorem mcbResize_init (m : Machine) (s n : Nat) :
    (mcbResize m s n).1.mcbInitialised = m.mcbInitialised := by
  unfold mcbResize
  split_ifs <;> rfl

/-- The block a segment names, with the chain split at it. -/
theorem BlockSeg.split {m : Machine} {s : Nat} {bs : List (Block Nat)} {b : Block Nat}
    (h : BlockSeg m s bs b) : ∃ pre post, bs = pre ++ b :: post ∧ s = MCB_ARENA_START + span pre + 1 := by
  obtain ⟨-, hm, hpos⟩ := h
  obtain ⟨pre, post, rfl, hs⟩ := mem_place_iff.mp hm
  exact ⟨pre, post, rfl, by omega⟩

theorem ah49_leavesJoined {m : Machine} (h : JoinedUp m)
    (hg : NoHeader m (m.segVal .es) ∨
      ∃ bs b, BlockSeg m (m.segVal .es) bs b ∧ ¬ FreeBefore bs (m.segVal .es - 1)) :
    LeavesJoined .ah49 m := by
  intro r hr hi
  obtain ⟨hmem, hinit⟩ := int21_49_reply hr
  rw [hinit, mcbFree_init] at hi
  obtain ⟨bs, hc, hco⟩ := h.chain hi
  rw [hmem]
  rcases hg with hg | ⟨bs', b, hseg, hbefore⟩
  · rw [mcbFree_noHeader hg]
    exact ⟨bs, hc, hco⟩
  · obtain rfl := hc.unique hseg.1
    obtain ⟨pre, post, rfl, hes⟩ := hseg.split
    rw [mcbFree, if_pos hi, hes]
    refine ⟨_, (mcbFreeIn_chain hc).2.1, coalesced_release hco ?_⟩
    intro x hx hfree
    refine hbefore ⟨MCB_ARENA_START + span pre - 1 - x.size, x, ?_, ?_, hfree⟩
    · obtain ⟨ys, rfl⟩ := List.getLast?_eq_some_iff.mp hx
      refine mem_place_iff.mpr ⟨ys, b :: post, by simp, ?_⟩
      simp only [span_append, span_cons, span_nil]
      omega
    · obtain ⟨ys, rfl⟩ := List.getLast?_eq_some_iff.mp hx
      simp only [span_append, span_cons, span_nil] at hes ⊢
      omega

theorem psp_header_outside : Set.Ico ((PSP_SEG - 1) * 16 + 3) ((PSP_SEG - 1) * 16 + 3 + 2) ⊆ outsideArena := by
  intro x hx
  left
  have hx' := hx.2
  simp only [PSP_SEG] at hx'
  simp only [MCB_ARENA_START]
  omega

theorem ah4A_leavesJoined {m : Machine} (h : JoinedUp m)
    (hg : m.segVal .es = PSP_SEG ∨ m.segVal .es < MCB_ARENA_START ∨ NoHeader m (m.segVal .es) ∨
      ∃ bs b, BlockSeg m (m.segVal .es) bs b ∧
        (m.bx + 1 < b.size → b.tag ≠ 0 ∧ ¬ FreeAfter bs (m.segVal .es - 1) b)) :
    LeavesJoined .ah4A m := by
  intro r hr hi
  simp only [MemCall.serve, int21_4A] at hr
  by_cases hpsp : m.segVal .es = PSP_SEG
  · rw [if_pos hpsp] at hr
    obtain rfl := Option.some.inj hr
    obtain ⟨bs, hc, hco⟩ := h.chain hi
    exact ⟨bs, hc.frame ((writew_off _ _ _).mono psp_header_outside) fun _ hx =>
      headerBytes_inside hc hx, hco⟩
  rw [if_neg hpsp] at hr
  by_cases hlow : m.segVal .es < MCB_ARENA_START
  · rw [if_pos hlow] at hr
    obtain rfl := Option.some.inj hr
    exact h.chain hi
  rw [if_neg hlow] at hr
  have hreply : r.1.mem = (mcbResize m (m.segVal .es) m.bx).1.mem ∧
      r.1.mcbInitialised = (mcbResize m (m.segVal .es) m.bx).1.mcbInitialised := by
    split_ifs at hr
    · obtain rfl := Option.some.inj hr
      exact ⟨rfl, rfl⟩
    · obtain rfl := Option.some.inj hr
      exact ⟨setR16s_mem _ _, rfl⟩
  rw [hreply.2, mcbResize_init] at hi
  obtain ⟨bs, hc, hco⟩ := h.chain hi
  rw [hreply.1]
  rcases hg.resolve_left hpsp |>.resolve_left hlow with hg | ⟨bs', b, hseg, hcut⟩
  · rw [mcbResize_noHeader hg]
    exact ⟨bs, hc, hco⟩
  · obtain rfl := hc.unique hseg.1
    obtain ⟨pre, post, rfl, hes⟩ := hseg.split
    have hq : m.segVal .es - 1 = MCB_ARENA_START + span pre := by omega
    rw [hq] at hcut
    rw [mcbResize, if_pos hi, hes]
    refine ⟨_, (mcbResizeIn_chain hc m.bx).1, coalesced_resize hco fun hlt => ⟨(hcut hlt).1, ?_⟩⟩
    intro y hy hfree
    exact (hcut hlt).2 ⟨y, mem_place_next.mpr hy, hfree⟩

theorem coalescing_step {m m' : Machine} {e : ArenaEvent} (h : JoinedUp m) (hg : Coalescing m e)
    (hs : arenaStep m e m') : JoinedUp m' := by
  have hcall : ∀ c, FlagsClear m c → LeavesJoined c m → finish (c.serve m) = some m' → JoinedUp m' := by
    intro c hflags hleaves hs
    obtain ⟨r, hr, rfl⟩ := Option.map_eq_some_iff.mp hs
    refine joinedUp_of_init fun hi => ?_
    obtain ⟨bs, hc, hco⟩ := hleaves r hr hi
    refine ⟨bs, hc.frame (setCf_off r.1 r.2) fun x hx => ?_, hco⟩
    rw [Set.mem_singleton_iff.mp hx]
    exact hflags r bs hr hi hc
  cases e with
  | guest cpu mem =>
    simp only [arenaStep] at hs
    subst hs
    refine joinedUp_of_init fun hi => ?_
    obtain ⟨bs, hc, hco⟩ := h.chain hi
    refine ⟨bs, hc.frame (S := { x | mem x ≠ m.mem x }) (fun x hx => ?_) fun x hx hb => ?_, hco⟩
    · by_contra hne
      exact hx hne
    · exact hx (hg hi bs hc x hb)
  | call c =>
    cases c with
    | ah48 => exact hcall _ hg (ah48_leavesJoined h) hs
    | ah49 => exact hcall _ hg.1 (ah49_leavesJoined h hg.2) hs
    | ah4A => exact hcall _ hg.1 (ah4A_leavesJoined h hg.2) hs
    | ax0100 => exact hg.elim
    | ax0101 => exact hg.elim
    | ax0102 => exact hg.elim
    | ax0501 => exact hg.elim
    | ax0502 => exact hg.elim
    | ax0503 => exact hg.elim

/-- **Fragments rejoin.**  In every run of AH=48, AH=49 and AH=4A calls from `mcb_init` on that never
    frees a block behind a free one and never cuts one in front of a free one, AH=48 for the whole
    arena succeeds as soon as no block is allocated. -/
theorem fragments_rejoin {m₀ m : Machine} {es : List ArenaEvent}
    (h₀ : Chain (mcbReady m₀).mem [⟨0, 0x7FFF⟩]) (hrun : Guarded arenaStep Coalescing m₀ es m)
    (hfreed : ∀ bs q b, Chain (mcbReady m).mem bs → ¬ Allocated bs q b) :
    ∃ r, int21_48 (m.setR16 .ebx 0x7FFF) = some (r, false) := by
  have hstart : JoinedUp m₀ := ⟨_, h₀, List.isChain_singleton _⟩
  obtain ⟨bs, hc, hco⟩ := hrun.invariant (fun _ _ _ h hg hs => coalescing_step h hg hs) hstart
  have hall : ∀ b ∈ bs, b.tag = 0 := by
    intro b hb
    by_contra hne
    obtain ⟨pre, post, rfl⟩ := List.append_of_mem hb
    exact hfreed _ _ b hc ⟨mem_place_mid pre post b, hne⟩
  have hlen := coalesced_all_free hco hall
  have htiles := hc.tiles
  obtain ⟨b, rfl⟩ : ∃ b, bs = [b] := by
    cases bs with
    | nil => exact absurd rfl hc.ne_nil
    | cons b bs =>
      cases bs with
      | nil => exact ⟨b, rfl⟩
      | cons c bs => simp at hlen
  refine (allocates_iff hc (by decide)).mpr ⟨b, List.mem_singleton_self b, hall b (by simp), ?_⟩
  simp only [span_cons, span_nil, MCB_ARENA_START, MCB_ARENA_END] at htiles
  omega

/-! ### Runs of calls -/

/-- Each call is made with the registers given; between the calls the guest changes nothing else. -/
def callsFrom : Machine → List (Cpu × MemCall) → Machine
  | m, [] => m
  | m, (cpu, c) :: cs => callsFrom ((finish (c.serve { m with cpu := cpu })).getD m) cs

def callEvents : Machine → List (Cpu × MemCall) → List ArenaEvent
  | _, [] => []
  | m, (cpu, c) :: cs => .guest cpu m.mem :: .call c ::
      callEvents ((finish (c.serve { m with cpu := cpu })).getD m) cs

/-- Every call returns. -/
def allAnswered : Machine → List (Cpu × MemCall) → Bool
  | _, [] => true
  | m, (cpu, c) :: cs => (finish (c.serve { m with cpu := cpu })).isSome &&
      allAnswered ((finish (c.serve { m with cpu := cpu })).getD m) cs

theorem callsFrom_run (cs : List (Cpu × MemCall)) : ∀ m, allAnswered m cs = true →
    Run arenaStep m (callEvents m cs) (callsFrom m cs) := by
  induction cs with
  | nil =>
    intro m _
    exact .nil m
  | cons pc cs ih =>
    intro m h
    obtain ⟨cpu, c⟩ := pc
    obtain ⟨hone, hrest⟩ := Bool.and_eq_true_iff.mp h
    obtain ⟨m', hm'⟩ := Option.isSome_iff_exists.mp hone
    have hcall : arenaStep { m with cpu := cpu } (.call c)
        ((finish (c.serve { m with cpu := cpu })).getD m) := by
      simp only [arenaStep, hm', Option.getD_some]
    exact .cons (show arenaStep m (.guest cpu m.mem) { m with cpu := cpu } from rfl)
      (.cons hcall (ih _ hrest))

/-- A call made with its FLAGS image below the arena. -/
theorem flagsClear_of_low {m : Machine} {c : MemCall} {a : Nat}
    (h : (c.serve m).map (fun r => flagsAddr r.1) = some a) (ha : a < MCB_ARENA_START * 16) :
    FlagsClear m c := by
  rintro r bs hr - - ⟨q, b, hm, hlow, -⟩
  rw [hr, Option.map_some, Option.some.injEq] at h
  have hge := (place_bounds hm).1
  omega

/-- Registers for AH=49 and AH=4A on the block with data segment `s`. -/
def esCpu (s : Nat) (bx : BitVec 32) : Cpu :=
  { arenaCpu bx 0 with
    segs := Function.update zeroCpu.segs .es ⟨BitVec.ofNat 16 s, BitVec.ofNat 32 (s * 16)⟩ }

/-- Two blocks are allocated, then freed in the same order. -/
def fragmenting : List (Cpu × MemCall) :=
  [(arenaCpu 0x10 0, .ah48), (arenaCpu 0x10 0, .ah48), (esCpu 0x2001 0, .ah49),
    (esCpu 0x2012 0, .ah49)]

/-- The second block is freed behind the first, which is free: they stay apart, and the whole arena
    cannot be had any more although nothing is allocated. -/
theorem fragments_stay : Run arenaStep bootMachine (callEvents bootMachine fragmenting)
      (callsFrom bootMachine fragmenting) ∧
    Chain (callsFrom bootMachine fragmenting).mem [⟨0, 0x10⟩, ⟨0, 0x7FEE⟩] ∧
    ∃ r, int21_48 ((callsFrom bootMachine fragmenting).setR16 .ebx 0x7FFF) = some (r, true) := by
  have hchain : Chain (callsFrom bootMachine fragmenting).mem [⟨0, 0x10⟩, ⟨0, 0x7FEE⟩] := by
    refine ⟨by decide, by decide, ⟨?_, ?_, ?_⟩, ⟨?_, ?_, ?_⟩, trivial⟩ <;> decide +kernel
  have hready : Chain (mcbReady ((callsFrom bootMachine fragmenting).setR16 .ebx 0x7FFF)).mem
      [⟨0, 0x10⟩, ⟨0, 0x7FEE⟩] := by
    rw [mcbReady_setR16, mcbReady_of_init (by decide +kernel)]
    exact hchain
  refine ⟨callsFrom_run _ _ (by decide +kernel), hchain, _, int21_48_refused hready ?_⟩
  · rw [show ∀ m : Machine, (m.setR16 .ebx 0x7FFF).bx = 0x7FFF from fun m => r16_setR16 m _ _]
    decide

/-- The first program gives back the block it got. -/
def returning : Machine := { served with cpu := esCpu 0x2001 0 }

def returned : Machine := (finish (MemCall.serve .ah49 returning)).getD served

theorem returning_coalescing : Coalescing returning (.call .ah49) := by
  have hflags : ((MemCall.serve .ah49 returning).map fun r => flagsAddr r.1) = some 4 := by
    decide +kernel
  refine ⟨flagsClear_of_low hflags (by decide), Or.inr ⟨asked, ⟨PSP_SEG, 0x1000⟩, ?_, ?_⟩⟩
  · exact ⟨chain_asked, by decide +kernel, by decide +kernel⟩
  · rintro ⟨p, c, hm, hend, -⟩
    have hge := (place_bounds hm).1
    have hes : returning.segVal .es = 0x2001 := by decide +kernel
    rw [hes] at hend
    simp only [MCB_ARENA_START] at hge
    omega

/-- Its run: AH=48 for 0x1000 paragraphs and AH=49. -/
theorem fragments_rejoin_returned : ∃ r, int21_48 (returned.setR16 .ebx 0x7FFF) = some (r, false) := by
  have hflags : ((MemCall.serve .ah48 asking).map fun r => flagsAddr r.1) = some 4 := by
    decide +kernel
  have hcall : arenaStep returning (.call .ah49) returned :=
    (Option.getD_of_ne_none (by decide +kernel) _).symm
  have hinit : returned.mcbInitialised = true := by decide +kernel
  have hchain : Chain returned.mem [⟨0, 0x7FFF⟩] := by
    refine ⟨by decide, by decide, ⟨?_, ?_, ?_⟩, trivial⟩ <;> decide +kernel
  refine fragments_rejoin (chain_ready_of_fresh (m := bootMachine) rfl)
    (.cons (show Coalescing bootMachine (.guest asking.cpu asking.mem) from asking_proper)
      (show arenaStep _ _ asking from rfl)
      (.cons (show Coalescing asking (.call .ah48) from flagsClear_of_low hflags (by decide)) call_served
        (.cons (show Coalescing served (.guest returning.cpu served.mem) from fun _ _ _ _ _ => rfl)
          (show arenaStep _ _ returning from rfl)
          (.cons returning_coalescing hcall (.nil _))))) ?_
  intro bs q b hc ha
  rw [mcbReady_of_init hinit] at hc
  obtain rfl := hc.unique hchain
  have hm := ha.1
  simp only [place, List.mem_singleton, Prod.mk.injEq] at hm
  exact ha.2 (by rw [hm.2])

end Dosiz
