/-
  Dosiz/CommandTail.lean
  ======================
  **Command tails** (`build_psp` and the child's PSP of INT 21h AH=4B AL=0, `bridge.cc`).

  A PSP holds the command tail at 80h: a length byte, the tail, a CR, in the 128 bytes that
  are left of it.  For the first program the tail is written from the arguments of the
  host; `args_iff` says which arguments come back when a program splits it.  For a child it is
  copied from the caller's parameter block, in front of the image that is loaded already;
  `childTail_iff` says which tails end in the PSP.
-/
import Dosiz.EnvBlock
import Dosiz.ChildEnv
import Dosiz.Quoting

namespace Dosiz.CommandTail

open ByteMemory Machine ChildEnv EnvBlock Quoting

/-! ### The arguments of the host -/

/-- `needs_quote` -/
def needsQuote (a : List Nat) : Bool := a.any fun c => c == 0x20 || c == 0x09

/-- An argument in the tail. -/
def tailArg (a : List Nat) : List Nat :=
  let chars := a.flatMap fun c => if c = 0x22 ∨ c = 0x5C then [0x5C, c] else [c]
  [0x20] ++ (if needsQuote a then [0x22] ++ chars ++ [0x22] else chars)

/-- The tail, before it is cut to 126 bytes. -/
def tailText (args : List HostStr) : List Nat := args.flatMap fun a => tailArg a.bytes

/-- `build_psp` -/
def buildPsp (getenv : String → Option HostStr) (path : HostStr) (args : List HostStr) (mem : Mem) : Mem :=
  let psp := PSP_SEG * 16
  let put (mem : Mem) (ps : List (Nat × Nat)) := ps.foldl (fun mem p => writeb mem (psp + p.1) p.2) mem
  let mem := fill mem psp 256 0
  let mem := put mem [(0x00, 0xCD), (0x01, 0x20), (0x02, 0x00), (0x03, 0xA0)]
  let mem := fill mem (psp + 0x18) 20 0xFF
  let mem := put mem [(0x18, 0x00), (0x19, 0x01), (0x1A, 0x02), (0x1B, 0x03), (0x1C, 0x04), (0x32, 20),
    (0x33, 0), (0x34, 0x18), (0x35, 0x00), (0x36, PSP_SEG % 256), (0x37, PSP_SEG / 256)]
  let mem := (buildEnvBlock getenv path mem).1
  let mem := put mem [(0x2C, ENV_SEG % 256), (0x2D, ENV_SEG / 256)]
  let tail := (tailText args).take 126
  let mem := writeb mem (psp + 0x80) tail.length
  let mem := storeBytes mem (psp + 0x81) tail
  writeb mem (psp + 0x81 + tail.length) 0x0D

/-- The tail a program finds in its PSP. -/
def tailOf (mem : Mem) (psp : Nat) : List Nat :=
  (List.range (readb mem (psp * 16 + 0x80))).map fun i => readb mem (psp * 16 + 0x81 + i)

/-- How a program splits it: at blanks, double quotes group, a backslash escapes a quote or a backslash. -/
def dosLexis : Lexis Nat where
  blank := fun c => c == 0x20 || c == 0x09
  quote := 0x22
  escape := 0x5C
  quote_ne := by decide
  blank_quote := rfl
  blank_escape := rfl

theorem tailText_line (args : List HostStr) :
    tailText args = line dosLexis 0x20 (args.map HostStr.bytes) := by
  rw [tailText, line, List.flatMap_map]
  rfl

theorem tailText_lt (args : List HostStr) : ∀ c ∈ tailText args, c < 256 := by
  intro c hc
  obtain ⟨a, -, hc⟩ := List.mem_flatMap.mp hc
  have hchars : ∀ d ∈ a.bytes.flatMap (fun c => if c = 0x22 ∨ c = 0x5C then [0x5C, c] else [c]), d < 256 := by
    intro d hd
    obtain ⟨e, he, hd⟩ := List.mem_flatMap.mp hd
    have hlt := (a.ok e he).2
    split_ifs at hd <;> simp at hd <;> omega
  unfold tailArg at hc
  dsimp only at hc
  split_ifs at hc
  · simp only [List.mem_append, List.mem_singleton] at hc
    rcases hc with rfl | (rfl | hc) | rfl
    · decide
    · decide
    · exact hchars c hc
    · decide
  · simp only [List.mem_append, List.mem_singleton] at hc
    rcases hc with rfl | hc
    · decide
    · exact hchars c hc

/-- A tail written in the PSP is the tail found there. -/
theorem tailOf_stored (mem : Mem) (psp : Nat) {tail : List Nat} (hlen : tail.length ≤ 126)
    (hlt : ∀ c ∈ tail, c < 256) :
    tailOf (writeb (storeBytes (writeb mem (psp * 16 + 0x80) tail.length) (psp * 16 + 0x81) tail)
      (psp * 16 + 0x81 + tail.length) 0x0D) psp = tail := by
  generalize hmem : writeb (storeBytes (writeb mem (psp * 16 + 0x80) tail.length) (psp * 16 + 0x81) tail)
    (psp * 16 + 0x81 + tail.length) 0x0D = mem'
  have hcount : readb mem' (psp * 16 + 0x80) = tail.length := by
    rw [← hmem, readb_writeb_of_ne (by omega),
      (storeBytes_off _ _ _).readb (fun hx => by have := hx.1; omega), readb_writeb,
      Nat.mod_eq_of_lt (by omega)]
  refine List.ext_getElem ?_ fun i h₁ h₂ => ?_
  · rw [tailOf, hcount, List.length_map, List.length_range]
  · simp only [tailOf, List.getElem_map, List.getElem_range]
    rw [← hmem, readb_writeb_of_ne (by omega), readb_storeBytes _ _ _ h₂,
      Nat.mod_eq_of_lt (hlt _ (List.getElem_mem h₂))]

theorem tailOf_buildPsp (getenv : String → Option HostStr) (path : HostStr) {args : List HostStr} (mem : Mem)
    (hfits : (tailText args).length ≤ 126) :
    tailOf (buildPsp getenv path args mem) PSP_SEG = tailText args := by
  unfold buildPsp
  dsimp only
  rw [List.take_of_length_le hfits]
  exact tailOf_stored _ PSP_SEG hfits (tailText_lt args)

/-- Splitting the tail gives back the arguments exactly if none of them is empty. -/
theorem args_iff (getenv : String → Option HostStr) (path : HostStr) (args : List HostStr) (mem : Mem)
    (hfits : (tailText args).length ≤ 126) :
    split dosLexis (tailOf (buildPsp getenv path args mem) PSP_SEG) = args.map HostStr.bytes ↔
      ∀ a ∈ args, a.bytes ≠ [] := by
  rw [tailOf_buildPsp getenv path mem hfits, tailText_line, split_line_iff rfl]
  constructor
  · intro h a ha hnil
    exact h (List.mem_map.mpr ⟨a, ha, hnil⟩)
  · intro h hmem
    obtain ⟨a, ha, hnil⟩ := List.mem_map.mp hmem
    exact h a ha hnil

/-- `a`, a path with a blank and a quoted word. -/
def plainArgs : List HostStr :=
  [⟨ascii "a", by decide⟩, ⟨ascii "C:\\MY DIR", by decide⟩, ⟨ascii "say \"no\"", by decide⟩]

theorem args_iff_plainArgs :
    split dosLexis (tailOf (buildPsp (fun _ => none) ⟨ascii "HELLO.COM", by decide⟩ plainArgs (fun _ => 0))
      PSP_SEG) = plainArgs.map HostStr.bytes :=
  (args_iff (fun _ => none) ⟨ascii "HELLO.COM", by decide⟩ plainArgs (fun _ => 0) (by decide)).mpr (by decide)

/-- `sort "" x` -/
def emptyArg : List HostStr := [⟨[], by decide⟩, ⟨ascii "x", by decide⟩]

/-- The program sees one argument. -/
theorem args_empty :
    split dosLexis (tailOf (buildPsp (fun _ => none) ⟨ascii "SORT.COM", by decide⟩ emptyArg (fun _ => 0))
      PSP_SEG) ≠ emptyArg.map HostStr.bytes := by
  rw [tailOf_buildPsp _ _ _ (by decide)]
  decide

/-! ### What the child's PSP is built from -/

/-- The address of the command tail, as the builder finds it in the parameter block. -/
def tailAddr (m : Machine) (psp env : Nat) : Nat :=
  let mem := pspFixed m psp env
  let pb := lin (m.segPhys .es + m.bx)
  readw mem (lin (pb + 4)) * 16 + readw mem (lin (pb + 2))

/-- The child's PSP with the length byte, before the copy. -/
def pspLen (m : Machine) (psp env : Nat) : Mem :=
  writeb (pspFixed m psp env) (psp * 16 + 0x80) (tailLen m psp env)

/-- The byte the copy loop reads in its turn `i`. -/
def tailByte (m : Machine) (psp env i : Nat) : Nat :=
  readb (copyUp (pspLen m psp env) (psp * 16 + 0x81) (tailAddr m psp env + 1) i)
    (tailAddr m psp env + 1 + i)

/-- PSP[80h] counts the bytes stored from PSP[81h] on, and a CR follows them in the PSP; nothing else of
    memory is written, the image at PSP:0100h least of all. -/
structure TailInPsp (m : Machine) (psp env : Nat) (mem' : Mem) : Prop where
  within : AgreesOff (Set.Ico (psp * 16) (psp * 16 + 256)) m.mem mem'
  image : ∀ x, psp * 16 + 0x100 ≤ x → readb mem' x = readb m.mem x
  count : readb mem' (psp * 16 + 0x80) = min (tailLen m psp env) 127
  stored : ∀ i < readb mem' (psp * 16 + 0x80), readb mem' (psp * 16 + 0x81 + i) = tailByte m psp env i
  room : 0x81 + readb mem' (psp * 16 + 0x80) < 0x100
  cr : readb mem' (psp * 16 + 0x81 + readb mem' (psp * 16 + 0x80)) = 0x0D

/-! ### What is written -/

theorem buildChildPsp_eq (m : Machine) (psp env : Nat) :
    buildChildPsp m psp env =
      writeb (copyUp (pspLen m psp env) (psp * 16 + 0x81) (tailAddr m psp env + 1)
        (min (tailLen m psp env) 127)) (psp * 16 + 0x81 + tailLen m psp env) 0x0D := rfl

theorem tailLen_lt (m : Machine) (psp env : Nat) : tailLen m psp env < 256 := readb_lt _ _

/-- What a turn of the loop stores stays. -/
theorem readb_copyUp_turn (mem : Mem) (dst src : Nat) {n i : Nat} (hi : i < n) :
    readb (copyUp mem dst src n) (dst + i) = readb (copyUp mem dst src i) (src + i) := by
  induction n with
  | zero => exact absurd hi (Nat.not_lt_zero _)
  | succ n ih =>
    rw [copyUp]
    rcases Nat.lt_succ_iff_lt_or_eq.mp hi with hlt | rfl
    · rw [readb_writeb_of_ne (by omega), ih hlt]
    · rw [readb_writeb, Nat.mod_eq_of_lt (readb_lt _ _)]

theorem buildChildPsp_count (m : Machine) (psp env : Nat) :
    readb (buildChildPsp m psp env) (psp * 16 + 0x80) = tailLen m psp env := by
  have hlen := tailLen_lt m psp env
  rw [buildChildPsp_eq, readb_writeb_of_ne (by omega),
    (copyUp_off _ _ _ _).readb (fun hx => by have := hx.1; omega), pspLen, readb_writeb,
    Nat.mod_eq_of_lt hlen]

theorem buildChildPsp_stored (m : Machine) (psp env : Nat) {i : Nat} (hi : i < tailLen m psp env)
    (h127 : i < 127) :
    readb (buildChildPsp m psp env) (psp * 16 + 0x81 + i) = tailByte m psp env i := by
  rw [buildChildPsp_eq, readb_writeb_of_ne (by omega), readb_copyUp_turn _ _ _ (lt_min hi h127),
    tailByte]

/-- The address and the length byte are the caller's unless they lie in the PSP that is built. -/
theorem tailLen_caller {m : Machine} {psp env : Nat}
    (hpb : ∀ d ∈ [2, 4], ∀ i < 2, lin (lin (m.segPhys .es + m.bx) + d) + i ∉ Set.Ico (psp * 16) (psp * 16 + 256))
    (htail : tailAddr m psp env ∉ Set.Ico (psp * 16) (psp * 16 + 256)) :
    tailAddr m psp env = readw m.mem (lin (lin (m.segPhys .es + m.bx) + 4)) * 16 +
        readw m.mem (lin (lin (m.segPhys .es + m.bx) + 2)) ∧
      tailLen m psp env = readb m.mem (tailAddr m psp env) := by
  have hfixed := pspFixed_off m psp env
  have hword : ∀ d ∈ [2, 4], readw (pspFixed m psp env) (lin (lin (m.segPhys .es + m.bx) + d)) =
      readw m.mem (lin (lin (m.segPhys .es + m.bx) + d)) := fun d hd =>
    hfixed.readw (hpb d hd 0 (by decide)) (hpb d hd 1 (by decide))
  have hlen : tailLen m psp env = readb (pspFixed m psp env) (tailAddr m psp env) := rfl
  refine ⟨?_, hlen.trans (hfixed.readb htail)⟩
  rw [← hword 4 (by decide), ← hword 2 (by decide)]
  rfl

/-! ### Tails that end in the PSP -/

theorem tailInPsp {m : Machine} {psp env : Nat} (h : tailLen m psp env ≤ 126) :
    TailInPsp m psp env (buildChildPsp m psp env) := by
  have hwithin := buildChildPsp_within m psp env le_rfl (show 0x82 + tailLen m psp env ≤ 256 by omega)
  have hcount := buildChildPsp_count m psp env
  refine ⟨hwithin, fun x hx => ?_, ?_, fun i hi => ?_, ?_, ?_⟩
  · exact hwithin.readb fun hin => by
      have := hin.2
      omega
  · rw [hcount, min_eq_left (by omega)]
  · rw [hcount] at hi
    exact buildChildPsp_stored m psp env hi (by omega)
  · omega
  · rw [hcount, buildChildPsp_eq, readb_writeb]

/-- The child's PSP is built inside its 256 bytes, with its tail and the CR, exactly if the length byte of the
    caller's tail leaves room for the CR. -/
theorem childTail_iff (m : Machine) (psp env : Nat) :
    TailInPsp m psp env (buildChildPsp m psp env) ↔ tailLen m psp env ≤ 126 := by
  constructor
  · intro h
    have hroom := h.room
    rw [buildChildPsp_count] at hroom
    omega
  · exact tailInPsp

/-! ### A tail that fills the buffer -/

/-- The parameter block at 0:0 points to 0:20, where a tail of 127 bytes stands. -/
def longTail : Machine :=
  { bootMachine with mem := writeb (writeb bootMachine.mem 2 0x20) 0x20 127 }

/-- The CR is written over the first byte of the image. -/
theorem childTail_overwrites :
    readb longTail.mem 0x1100 = 0 ∧ readb (buildChildPsp longTail PSP_SEG ENV_SEG) 0x1100 = 0x0D ∧
      ¬ TailInPsp longTail PSP_SEG ENV_SEG (buildChildPsp longTail PSP_SEG ENV_SEG) := by
  have himage : readb longTail.mem 0x1100 = 0 ∧
      readb (buildChildPsp longTail PSP_SEG ENV_SEG) 0x1100 = 0x0D := by
    constructor <;> decide +kernel
  refine ⟨himage.1, himage.2, fun h => ?_⟩
  have hsame := h.image 0x1100 (by decide)
  rw [himage.1, himage.2] at hsame
  exact absurd hsame (by decide)

end Dosiz.CommandTail
