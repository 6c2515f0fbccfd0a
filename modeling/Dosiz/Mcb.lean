/-
  Dosiz/Mcb.lean
  ==============
  **The memory-control-block arena** (`mcb_init` … `mcb_resize` of `bridge.cc`).

  The arena is a chain of blocks in guest memory, segments 0x2000 up to 0xA000.
  A header is one paragraph: the type byte ('M', or 'Z' for the last block) at +0,
  the owner word (0 = free) at +1 and the size in paragraphs at +3.  The functions
  of the source are translated first, on guest memory.  Then `Chain mem bs` says that
  memory holds the chain `bs`, and each function is shown to perform on guest memory
  the edit of `BlockChain` it stands for, writing no byte that is not a header's.
-/
import Mathlib.Tactic.SplitIfs
import Dosiz.BlockChain
import Dosiz.Machine

namespace Dosiz.Mcb

open ByteMemory BlockChain

def MCB_ARENA_START : Nat := 0x2000
def MCB_ARENA_END : Nat := 0xA000

/-! ### The functions of the source -/

def mcbInit (mem : Mem) : Mem :=
  let m := MCB_ARENA_START * 16
  let mem := writeb mem m 0x5A
  let mem := writew mem (m + 1) 0
  let mem := writew mem (m + 3) (MCB_ARENA_END - MCB_ARENA_START - 1)
  let p := (PSP_SEG - 1) * 16
  let mem := writeb mem p 0x4D
  let mem := writew mem (p + 1) PSP_SEG
  writew mem (p + 3) (MCB_ARENA_START - PSP_SEG - 1)

/-- The loop of `mcb_find_free`: the segment found (0 on failure) and the largest free
    block passed.  The walk visits at most 65536 different headers, so running out of
    that much fuel (`none`) is running forever. -/
def mcbWalk (mem : Mem) (need : Nat) : Nat → Nat → Nat → Option (Nat × Nat)
  | 0, _, _ => none
  | fuel + 1, seg, largest =>
    let m := seg * 16
    let type := readb mem m
    if type ≠ 0x4D ∧ type ≠ 0x5A then some (0, largest)
    else
      let owner := readw mem (m + 1)
      let size := readw mem (m + 3)
      if owner = 0 ∧ need ≤ size then some (seg, largest)
      else
        let largest := if owner = 0 ∧ largest < size then size else largest
        if type = 0x5A then some (0, largest)
        else mcbWalk mem need fuel ((seg + 1 + size) % 65536) largest

def mcbFindFree (mem : Mem) (need : Nat) : Option (Nat × Nat) :=
  mcbWalk mem need 65536 MCB_ARENA_START 0

def mcbSplit (mem : Mem) (mcbSeg need : Nat) : Mem :=
  let m := mcbSeg * 16
  let cur := readw mem (m + 3)
  let type := readb mem m
  if cur ≤ need + 1 then mem
  else
    let nm := (mcbSeg + 1 + need) % 65536 * 16
    let mem := writeb mem nm type
    let mem := writew mem (nm + 1) 0
    let mem := writew mem (nm + 3) (cur - need - 1)
    let mem := writeb mem m 0x4D
    writew mem (m + 3) need

/-- `mcb_allocate` after the lazy initialisation: memory, the data segment (0 on failure)
    and the largest free block. -/
def mcbAllocateIn (mem : Mem) (need : Nat) : Option (Mem × Nat × Nat) :=
  match mcbFindFree mem need with
  | none => none
  | some (seg, largest) =>
    if seg = 0 then some (mem, 0, largest)
    else some (writew (mcbSplit mem seg need) (seg * 16 + 1) PSP_SEG, (seg + 1) % 65536, largest)

def mcbFreeIn (mem : Mem) (dataSeg : Nat) : Mem × Bool :=
  let mcbSeg := (dataSeg + 65535) % 65536
  let m := mcbSeg * 16
  let type := readb mem m
  if type ≠ 0x4D ∧ type ≠ 0x5A then (mem, false)
  else
    let mem := writew mem (m + 1) 0
    if type = 0x5A then (mem, true)
    else
      let size := readw mem (m + 3)
      let nm := (mcbSeg + 1 + size) % 65536 * 16
      if readw mem (nm + 1) ≠ 0 then (mem, true)
      else
        let nextType := readb mem nm
        let nextSize := readw mem (nm + 3)
        let mem := writew mem (m + 3) ((size + 1 + nextSize) % 65536)
        (writeb mem m nextType, true)

/-- `mcb_resize`: memory, the size reached, and the largest size that was possible. -/
def mcbResizeIn (mem : Mem) (dataSeg newSize : Nat) : Mem × Nat × Nat :=
  let mcbSeg := (dataSeg + 65535) % 65536
  let m := mcbSeg * 16
  let type := readb mem m
  if type ≠ 0x4D ∧ type ≠ 0x5A then (mem, 0, 0)
  else
    let cur := readw mem (m + 3)
    if newSize = cur then (mem, cur, cur)
    else if newSize < cur then (mcbSplit mem mcbSeg newSize, newSize, cur)
    else if type = 0x5A then (mem, cur, cur)
    else
      let nm := (mcbSeg + 1 + cur) % 65536 * 16
      if readw mem (nm + 1) ≠ 0 then (mem, cur, cur)
      else
        let combined := (cur + 1 + readw mem (nm + 3)) % 65536
        if combined < newSize then (mem, cur, combined)
        else
          let mem := writeb mem m (readb mem nm)
          let mem := writew mem (m + 3) combined
          (mcbSplit mem mcbSeg newSize, newSize, combined)

/-- `if (!s_mcb_initialised) mcb_init();` -/
def mcbReady (m : Machine) : Machine :=
  if m.mcbInitialised then m else { m with mem := mcbInit m.mem, mcbInitialised := true }

/-- `mcb_allocate` -/
def mcbAllocate (m : Machine) (need : Nat) : Option (Machine × Nat × Nat) :=
  let m := mcbReady m
  match mcbAllocateIn m.mem need with
  | none => none
  | some (mem, seg, largest) => some ({ m with mem := mem }, seg, largest)

/-- `mcb_free` -/
def mcbFree (m : Machine) (dataSeg : Nat) : Machine × Bool :=
  if m.mcbInitialised then
    ({ m with mem := (mcbFreeIn m.mem dataSeg).1 }, (mcbFreeIn m.mem dataSeg).2)
  else (m, false)

/-- `mcb_resize` -/
def mcbResize (m : Machine) (dataSeg newSize : Nat) : Machine × Nat × Nat :=
  if m.mcbInitialised then
    ({ m with mem := (mcbResizeIn m.mem dataSeg newSize).1 }, (mcbResizeIn m.mem dataSeg newSize).2)
  else (m, 0, 0)

/-! ### The chain in memory -/

/-- The header at segment `p` describes `b`: 'Z' if `last`, else 'M'. -/
structure HeaderAt (mem : Mem) (p : Nat) (last : Bool) (b : Block Nat) : Prop where
  type : readb mem (p * 16) = if last then 0x5A else 0x4D
  owner : readw mem (p * 16 + 1) = b.tag
  size : readw mem (p * 16 + 3) = b.size

/-- Memory holds the chain `bs`: it starts at the first segment of the arena, ends exactly
    at its last, and every header is in place. -/
structure Chain (mem : Mem) (bs : List (Block Nat)) : Prop where
  ne_nil : bs ≠ []
  tiles : MCB_ARENA_START + span bs = MCB_ARENA_END
  links : Links (HeaderAt mem) false MCB_ARENA_START bs

/-- The five bytes of each header of a chain that the host reads and writes. -/
def headerBytes (bs : List (Block Nat)) : Set Nat :=
  { x | ∃ q b, (q, b) ∈ place MCB_ARENA_START bs ∧ q * 16 ≤ x ∧ x < q * 16 + 5 }

theorem HeaderAt.type_ok {mem : Mem} {p : Nat} {last : Bool} {b : Block Nat}
    (h : HeaderAt mem p last b) : ¬ (readb mem (p * 16) ≠ 0x4D ∧ readb mem (p * 16) ≠ 0x5A) := by
  rw [h.type]
  cases last <;> simp

theorem HeaderAt.frame {mem mem' : Mem} {p : Nat} {last : Bool} {b : Block Nat} {S : Set Nat}
    (h : HeaderAt mem p last b) (hoff : AgreesOff S mem mem')
    (hS : ∀ x, p * 16 ≤ x → x < p * 16 + 5 → x ∉ S) : HeaderAt mem' p last b where
  type := (hoff.readb (hS _ (by omega) (by omega))).trans h.type
  owner := (hoff.readw (hS _ (by omega) (by omega)) (hS _ (by omega) (by omega))).trans h.owner
  size := (hoff.readw (hS _ (by omega) (by omega)) (hS _ (by omega) (by omega))).trans h.size

/-- A chain survives any change to memory that keeps off its headers. -/
theorem Chain.frame {mem mem' : Mem} {bs : List (Block Nat)} {S : Set Nat} (h : Chain mem bs)
    (hoff : AgreesOff S mem mem') (hS : ∀ x ∈ S, x ∉ headerBytes bs) : Chain mem' bs where
  ne_nil := h.ne_nil
  tiles := h.tiles
  links := h.links.congr fun q b _ hm hd =>
    hd.frame hoff fun x h₁ h₂ hx => hS x hx ⟨q, b, hm, h₁, h₂⟩

/-- A local edit: `mid` is replaced by `mid'` of the same span, and memory changes only
    inside the paragraphs of `mid`. -/
theorem Chain.edit {mem mem' : Mem} {pre post : List (Block Nat)} {S : Set Nat}
    (mid mid' : List (Block Nat)) (h : Chain mem (pre ++ mid ++ post)) (hmid : mid ≠ []) (hmid' : mid' ≠ [])
    (hspan : span mid' = span mid) (hoff : AgreesOff S mem mem')
    (hS : ∀ x ∈ S, (MCB_ARENA_START + span pre) * 16 ≤ x ∧
      x < (MCB_ARENA_START + span pre + span mid) * 16)
    (hnew : Links (HeaderAt mem') (!post.isEmpty) (MCB_ARENA_START + span pre) mid') :
    Chain mem' (pre ++ mid' ++ post) where
  ne_nil := by simp [hmid']
  tiles := by
    have := h.tiles
    simp only [span_append, hspan] at this ⊢
    exact this
  links := by
    refine h.links.replace hmid hmid' hspan ?_ ?_ hnew
    · intro q b l hm hd
      refine hd.frame hoff fun x _ h₂ hx => ?_
      have := (hS x hx).1
      have := (place_bounds hm).2
      omega
    · intro q b l hm hd
      refine hd.frame hoff fun x h₁ _ hx => ?_
      have := (hS x hx).2
      have := (place_bounds hm).1
      simp only [span_append] at this
      omega

/-- The header of a block in the chain, and where the block ends. -/
theorem Chain.header {mem : Mem} {pre post : List (Block Nat)} {b : Block Nat}
    (h : Chain mem (pre ++ b :: post)) :
    HeaderAt mem (MCB_ARENA_START + span pre) post.isEmpty b := by
  simpa using h.links.head

theorem Chain.span_eq {mem : Mem} {pre post : List (Block Nat)} {b : Block Nat}
    (h : Chain mem (pre ++ b :: post)) : span pre + b.size + 1 + span post = 0x8000 := by
  have := h.tiles
  simp only [span_append, span_cons, MCB_ARENA_START, MCB_ARENA_END] at this
  omega

/-- A block of the chain that is allocated (its owner word is not 0) with its position. -/
def Allocated (bs : List (Block Nat)) (q : Nat) (b : Block Nat) : Prop :=
  (q, b) ∈ place MCB_ARENA_START bs ∧ b.tag ≠ 0

/-- A byte of a block's data is no header byte of its chain. -/
theorem not_headerBytes_of_data {bs : List (Block Nat)} {q x : Nat} {b : Block Nat}
    (hm : (q, b) ∈ place MCB_ARENA_START bs) (h₁ : (q + 1) * 16 ≤ x)
    (h₂ : x < (q + 1 + b.size) * 16) : x ∉ headerBytes bs := by
  rintro ⟨q', b', hm', h₁', h₂'⟩
  rcases place_disjoint hm hm' with h | h | h
  · omega
  · omega
  · omega

end Dosiz.Mcb
