/-
  Dosiz/ProgramBlock.lean
  =======================
  **The top-level program's own header and the arena chain.**

  `mcb_init` puts a header one paragraph below the PSP, and AH=4A on the PSP writes BX
  into its size word.  Neither puts a header after the block it describes: walking up
  from segment 0x00FF the next header is read at 0x0100 + size, in the program's own
  memory unless that is the arena's first segment.  A run here is any interleaving of
  AH=48, AH=49 and AH=4A with guest code that writes no header; `Reached` carries along
  the size recorded last, which the calls alone determine.
-/
import Dosiz.ArenaSafety

namespace Dosiz.Mcb

open ByteMemory BlockChain Machine

/-! ### The walk -/

/-- Walking up through 'M' headers leads from segment `p` to segment `q`. -/
inductive Leads (mem : Mem) (q : Nat) : Nat → Prop where
  | here : Leads mem q q
  | next {p : Nat} (type : readb mem (p * 16) = 0x4D)
      (rest : Leads mem q (p + 1 + readw mem (p * 16 + 3))) : Leads mem q p

theorem Leads.le {mem : Mem} {p q : Nat} (h : Leads mem q p) : p ≤ q := by
  induction h with
  | here => exact Nat.le_refl q
  | next _ _ ih => omega

theorem Leads.of_ne {mem : Mem} {p q : Nat} (h : Leads mem q p) (hne : p ≠ q) :
    readb mem (p * 16) = 0x4D ∧ Leads mem q (p + 1 + readw mem (p * 16 + 3)) := by
  cases h with
  | here => exact absurd rfl hne
  | next type rest => exact ⟨type, rest⟩

/-- The walk from the program's header joins up with the arena chain, and the recorded
    extent of the PSP block ends before it. -/
structure JoinsUp (mem : Mem) : Prop where
  leads : Leads mem MCB_ARENA_START (PSP_SEG - 1)
  arena : ∃ bs, Chain mem bs
  extent : PSP_SEG + readw mem ((PSP_SEG - 1) * 16 + 3) ≤ MCB_ARENA_START

/-- The program's header with `s` paragraphs recorded, and some chain in the arena. -/
structure Recorded (s : Nat) (mem : Mem) : Prop where
  header : HeaderAt mem (PSP_SEG - 1) false ⟨PSP_SEG, s⟩
  arena : ∃ bs, Chain mem bs

/-- The program's own memory leads from the end of the recorded block to the arena. -/
theorem Recorded.joins {s : Nat} {mem : Mem} (h : Recorded s mem) :
    JoinsUp mem ↔ Leads mem MCB_ARENA_START (PSP_SEG + s) := by
  have hnext : PSP_SEG - 1 + 1 + readw mem ((PSP_SEG - 1) * 16 + 3) = PSP_SEG + s := by
    rw [h.header.size]
    rfl
  constructor
  · intro hj
    obtain ⟨-, hrest⟩ := hj.leads.of_ne (by decide)
    rwa [hnext] at hrest
  · intro hl
    refine ⟨.next h.header.type ?_, h.arena, ?_⟩
    · rwa [hnext]
    · rw [h.header.size]
      exact hl.le

theorem mcbInit_recorded (mem : Mem) : Recorded (MCB_ARENA_START - PSP_SEG - 1) (mcbInit mem) where
  header := by
    constructor
    · simp only [mcbInit, PSP_SEG]
      simp (disch := omega) only [readb_writew_of_ne, readb_writeb]
      rfl
    · simp only [mcbInit]
      rw [readw_writew_of_disjoint (by decide), readw_writew]
      rfl
    · simp only [mcbInit]
      rw [readw_writew]
      rfl
  arena := ⟨_, mcbInit_chain mem⟩

/-! ### What a call does to the two -/

/-- The header bytes the host reads and writes. -/
def allHeaders (bs : List (Block Nat)) : Set Nat := hdrBytes (PSP_SEG - 1) ∪ headerBytes bs

theorem hdrBytes_psp_outside {x : Nat} (hx : x ∈ hdrBytes (PSP_SEG - 1)) : x ∈ outsideArena := by
  have h := hx.2
  simp only [PSP_SEG] at h
  simp only [outsideArena, MCB_ARENA_START, Set.mem_ofPred_eq]
  omega

/-- An edit of the chain leaves the program's header alone. -/
theorem Recorded.chain {s : Nat} {mem mem' : Mem} {bs bs' : List (Block Nat)} (h : Recorded s mem)
    (hc : Chain mem bs) (hc' : Chain mem' bs')
    (hoff : AgreesOff (headerBytes bs ∪ headerBytes bs') mem mem') : Recorded s mem' where
  header := by
    refine h.header.frame hoff fun x h₁ h₂ hx => ?_
    have hout := hdrBytes_psp_outside ⟨h₁, h₂⟩
    rcases hx with hx | hx
    · exact headerBytes_inside hc hout hx
    · exact headerBytes_inside hc' hout hx
  arena := ⟨bs', hc'⟩

/-- Neither header is touched by a write off both. -/
theorem Recorded.frame {s : Nat} {mem mem' : Mem} {bs : List (Block Nat)} {S : Set Nat}
    (h : Recorded s mem) (hc : Chain mem bs) (hoff : AgreesOff S mem mem')
    (hS : ∀ x ∈ S, x ∉ allHeaders bs) : Recorded s mem' where
  header := h.header.frame hoff fun x h₁ h₂ hx => hS x hx (Or.inl ⟨h₁, h₂⟩)
  arena := ⟨bs, hc.frame hoff fun x hx hb => hS x hx (Or.inr hb)⟩

theorem Recorded.allocate {s : Nat} {m : Machine} (h : Recorded s m.mem)
    (hi : m.mcbInitialised = true) (need : Nat) :
    ∃ mem seg largest, mcbAllocate m need = some ({ m with mem := mem }, seg, largest) ∧
      Recorded s mem := by
  obtain ⟨bs, hc⟩ := h.arena
  have hready : mcbReady m = m := if_pos hi
  unfold mcbAllocate
  rw [hready]
  rcases mcbAllocateIn_chain hc need with
    ⟨mem, pre, b, post, rfl, -, -, ⟨largest, halloc⟩, hc', hoff, -⟩ | ⟨halloc, -⟩
  · refine ⟨mem, MCB_ARENA_START + span pre + 1, largest, by simp only [halloc], ?_⟩
    exact h.chain hc hc' (hoff.mono Set.subset_union_right)
  · exact ⟨m.mem, 0, largestFree 0 bs, by simp only [halloc], h⟩

theorem Recorded.free {s d : Nat} {m : Machine} (h : Recorded s m.mem) (hd : AllocatedSeg m d) :
    ∃ mem, mcbFree m d = ({ m with mem := mem }, true) ∧ Recorded s mem := by
  obtain ⟨hi, bs, q, b, hc, ha, rfl⟩ := hd
  obtain ⟨pre, post, rfl, rfl⟩ := mem_place_iff.mp ha.1
  obtain ⟨hok, hc', hoff⟩ := mcbFreeIn_chain hc
  refine ⟨_, ?_, h.chain hc hc' (hoff.mono Set.subset_union_left)⟩
  simp only [mcbFree, if_pos hi, hok]

theorem Recorded.resize {s d : Nat} {m : Machine} (h : Recorded s m.mem) (hd : AllocatedSeg m d)
    (n : Nat) :
    ∃ mem r, mcbResize m d n = ({ m with mem := mem }, r) ∧ Recorded s mem := by
  obtain ⟨hi, bs, q, b, hc, ha, rfl⟩ := hd
  obtain ⟨pre, post, rfl, rfl⟩ := mem_place_iff.mp ha.1
  obtain ⟨hc', hoff, -⟩ := mcbResizeIn_chain hc n
  refine ⟨_, (mcbResizeIn m.mem (MCB_ARENA_START + span pre + 1) n).2, ?_, h.chain hc hc' hoff⟩
  simp only [mcbResize, if_pos hi]

/-- AH=4A on the PSP records the size asked for. -/
theorem Recorded.record {s n : Nat} {mem : Mem} (h : Recorded s mem) (hn : n < 65536) :
    Recorded n (writew mem ((PSP_SEG - 1) * 16 + 3) n) := by
  have hoff := writew_off mem ((PSP_SEG - 1) * 16 + 3) n
  constructor
  · constructor
    · rw [readb_writew_of_ne (by decide) (by decide)]
      exact h.header.type
    · rw [readw_writew_of_disjoint (by decide)]
      exact h.header.owner
    · rw [readw_writew]
      exact Nat.mod_eq_of_lt hn
  · obtain ⟨bs, hc⟩ := h.arena
    refine ⟨bs, hc.frame hoff fun x hx => headerBytes_inside hc (hdrBytes_psp_outside ⟨?_, ?_⟩)⟩
    · have := hx.1
      omega
    · have := hx.2
      omega

/-! ### Runs -/

/-- The three calls; AH=49 on an allocated block, AH=4A on one, on the PSP, or on another
    block below the arena. -/
def OwnCall (m : Machine) : MemCall → Prop
  | .ah48 => True
  | .ah49 => AllocatedSeg m (m.segVal .es)
  | .ah4A => AllocatedSeg m (m.segVal .es) ∨ m.segVal .es < MCB_ARENA_START
  | _ => False

/-- The guest writes no header, and makes its calls with the FLAGS image on none. -/
def OffHeaders (m : Machine) : ArenaEvent → Prop
  | .guest _ mem => ∀ bs, Chain m.mem bs → ∀ x ∈ allHeaders bs, mem x = m.mem x
  | .call c => OwnCall m c ∧ ∀ r bs, c.serve m = some r → Chain r.1.mem bs →
      flagsAddr r.1 ∉ allHeaders bs

/-- The size recorded after an event. -/
def sizeAfter (m : Machine) (s : Nat) : ArenaEvent → Nat
  | .call .ah4A => if m.segVal .es = PSP_SEG then m.bx else s
  | _ => s

/-- `m` is reached from an `mcb_init`, and AH=4A recorded `s` for the PSP block last (the
    initial size when it was not called on it). -/
inductive Reached : Machine → Nat → Prop where
  | init (m : Machine) : Reached { m with mem := mcbInit m.mem, mcbInitialised := true }
      (MCB_ARENA_START - PSP_SEG - 1)
  | step {m n : Machine} {s : Nat} {e : ArenaEvent} (before : Reached m s) (off : OffHeaders m e)
      (step : arenaStep m e n) : Reached n (sizeAfter m s e)

theorem ownCall_recorded {m : Machine} {s : Nat} {c : MemCall} (h : Recorded s m.mem)
    (hi : m.mcbInitialised = true) (hc : OwnCall m c) :
    ∃ r, c.serve m = some r ∧ r.1.mcbInitialised = true ∧
      Recorded (sizeAfter m s (.call c)) r.1.mem := by
  cases c with
  | ah48 =>
    obtain ⟨mem, seg, largest, halloc, hrec⟩ := h.allocate hi m.bx
    simp only [MemCall.serve, int21_48, halloc]
    split_ifs
    · exact ⟨_, rfl, hi, hrec⟩
    · exact ⟨_, rfl, hi, hrec⟩
  | ah49 =>
    obtain ⟨mem, hfree, hrec⟩ := h.free hc
    simp only [MemCall.serve, int21_49, hfree]
    exact ⟨_, rfl, hi, hrec⟩
  | ah4A =>
    simp only [MemCall.serve, int21_4A, sizeAfter]
    by_cases hpsp : m.segVal .es = PSP_SEG
    · rw [if_pos hpsp, if_pos hpsp]
      exact ⟨_, rfl, hi, h.record (m.r16_lt .ebx)⟩
    rw [if_neg hpsp, if_neg hpsp]
    by_cases hlow : m.segVal .es < MCB_ARENA_START
    · rw [if_pos hlow]
      exact ⟨_, rfl, hi, h⟩
    rw [if_neg hlow]
    obtain ⟨mem, r, hres, hrec⟩ := h.resize (hc.resolve_right hlow) m.bx
    simp only [hres]
    split_ifs
    · exact ⟨_, rfl, hi, hrec⟩
    · exact ⟨_, rfl, hi, hrec⟩
  | _ => exact absurd hc (by simp [OwnCall])

theorem Reached.recorded {m : Machine} {s : Nat} (h : Reached m s) :
    m.mcbInitialised = true ∧ Recorded s m.mem := by
  induction h with
  | init m => exact ⟨rfl, mcbInit_recorded m.mem⟩
  | @step m n s e _ off step ih =>
    obtain ⟨hi, hrec⟩ := ih
    cases e with
    | guest cpu mem =>
      simp only [arenaStep] at step
      subst step
      obtain ⟨bs, hc⟩ := hrec.arena
      refine ⟨hi, hrec.frame hc (S := { x | mem x ≠ m.mem x }) (fun x hx => ?_) fun x hx hb => ?_⟩
      · by_contra hne
        exact hx hne
      · exact hx (off bs hc x hb)
    | call c =>
      obtain ⟨r, hr, hi', hrec'⟩ := ownCall_recorded hrec hi off.1
      simp only [arenaStep, finish, hr, Option.map_some, Option.some.injEq] at step
      subst step
      obtain ⟨bs, hc⟩ := hrec'.arena
      refine ⟨hi', hrec'.frame hc (setCf_off r.1 r.2) fun x hx => ?_⟩
      rw [Set.mem_singleton_iff.mp hx]
      exact off.2 r bs hr hc

/-- **The program's header and the arena.**  In every state of every run the walk from segment
    0x00FF joins up with the arena chain exactly where, behind the size recorded last, the
    program's own memory leads to the arena's first segment. -/
theorem programBlock_joins_iff {m : Machine} {s : Nat} (h : Reached m s) :
    JoinsUp m.mem ↔ Leads m.mem MCB_ARENA_START (PSP_SEG + s) :=
  h.recorded.2.joins

/-- A real-mode CPU that asks for `bx` paragraphs for the PSP block, with its stack at 0000:0000. -/
def pspCpu (bx : BitVec 32) : Cpu :=
  { zeroCpu with
    regs := Function.update zeroCpu.regs .ebx bx
    segs := Function.update zeroCpu.segs .es ⟨PSP_SEG, PSP_SEG * 16⟩ }

/-- Asking for exactly the paragraphs up to the arena's first segment. -/
def exact : Machine :=
  { bootMachine with mem := mcbInit bootMachine.mem, mcbInitialised := true, cpu := pspCpu 0x1F00 }

theorem exact_reached : Reached exact (MCB_ARENA_START - PSP_SEG - 1) :=
  (Reached.init bootMachine).step (e := .guest (pspCpu 0x1F00) (mcbInit bootMachine.mem))
    (fun _ _ _ _ => rfl) rfl

theorem programBlock_joins_iff_exact : ∃ m, Reached m 0x1F00 ∧ JoinsUp m.mem := by
  obtain ⟨m, hm⟩ : ∃ m, arenaStep exact (.call .ah4A) m := ⟨_, rfl⟩
  have hreached : Reached m 0x1F00 := by
    refine exact_reached.step (e := .call .ah4A) ⟨Or.inr (by decide +kernel), ?_⟩ hm
    intro r bs hr hc
    have hflags : (MemCall.serve .ah4A exact).map (fun r => flagsAddr r.1) = some 4 := by
      decide +kernel
    rw [hr, Option.map_some, Option.some.injEq] at hflags
    rintro (hx | hx)
    · rw [hflags] at hx
      exact absurd hx.1 (by decide)
    · refine headerBytes_inside hc ?_ hx
      rw [hflags]
      exact Or.inl (by decide)
  exact ⟨m, hreached, (programBlock_joins_iff hreached).mpr .here⟩

/-- Over zeroed memory the header `mcb_init` writes leads nowhere: its size is one short. -/
theorem programBlock_falls_short : ¬ ∀ m s, Reached m s → JoinsUp m.mem := by
  intro h
  have hlead := (mcbInit_recorded bootMachine.mem).joins.mp (h _ _ (Reached.init bootMachine))
  obtain ⟨htype, -⟩ := hlead.of_ne (by decide)
  have hzero : readb (mcbInit bootMachine.mem) 0x1FFF0 = 0 := by decide +kernel
  rw [show (PSP_SEG + (MCB_ARENA_START - PSP_SEG - 1)) * 16 = 0x1FFF0 by decide, hzero] at htype
  exact absurd htype (by decide)

end Dosiz.Mcb
