/-
  Dosiz/Int31.lean
  ================
  **The DPMI services** (`dosiz_int31` of `bridge.cc`).

  One definition for each function, up to the `set_cf` it ends in, and the dispatcher on
  AX.  The memory services are in `MemoryServices`; AX=0300, 0301 and 0302, which run the
  guest before they answer, are in `RealMode`.
-/
import Dosiz.MemoryServices

namespace Dosiz

open ByteMemory Machine Mcb

/-! ### Client buffers -/

/-- Store bytes from the linear address `a` on, each at its own `PhysPt`. -/
def putBytes (mem : Mem) (a : Nat) : List Nat → Mem
  | [] => mem
  | b :: bs => putBytes (writeb mem (lin a) b) (a + 1) bs

/-- Store words from `a` on. -/
def putWords (mem : Mem) (a : Nat) : List Nat → Mem
  | [] => mem
  | w :: ws => putWords (writew mem (lin a) w) (a + 2) ws

/-- Store dwords from `a` on. -/
def putDwords (mem : Mem) (a : Nat) : List Nat → Mem
  | [] => mem
  | d :: ds => putDwords (writed mem (lin a) d) (a + 4) ds

/-- The buffer at ES:EDI, or at ES with another offset register. -/
def esBuffer (m : Machine) (r : Reg) : Nat := m.segPhys .es + m.r32 r

/-- `set_cf(false)` and nothing else. -/
def succeed (m : Machine) : Reply := some (m, false)

/-! ### Descriptors (AX=0000 to 000D) -/

/-- The place in the table of the selector in BX. -/
def bxDesc (m : Machine) : Nat := descAddr m.bx

/-- `write_ldt_descriptor` for a slot just taken. -/
def installLdt (m : Machine) (idx base limit access : Nat) : Machine :=
  let m := ldtSet m idx true
  { m with mem := writeLdtDescriptor m.mem idx base limit access false }

/-- AX=0000: allocate CX descriptors. -/
def int31_0000 (m : Machine) : Reply :=
  let count := m.cx
  if count = 0 ∨ LDT_COUNT ≤ count then some (failWith m 0x8021)
  else
    let start := ldtFindRun m count
    if start = 0 then some (failWith m 0x8011)
    else
      let r := (List.range count).foldl
        (fun r i => installLdt r (start + i) 0 0xFFFF (clientDataAccess m)) m
      some (r.setR16 .eax (clientSelector m start), false)

/-- The allocated LDT slot of the selector in BX. -/
def freeArg (m : Machine) : Option Nat :=
  if m.bx / 4 % 2 = 0 ∨ !selectorIsValid m.bx then none
  else if ldtBit m (m.bx / 8) then some (m.bx / 8) else none

/-- AX=0001: free the descriptor BX.  The descriptor's bytes stay. -/
def int31_0001 (m : Machine) : Reply :=
  match freeArg m with
  | none => some (failWith m 0x8022)
  | some idx =>
    let m := ldtSet m idx false
    succeed { m with
      seg2descCache := fun s => if m.seg2descCache s = idx then 0 else m.seg2descCache s }

/-- AX=0002: the descriptor of the real-mode segment BX. -/
def int31_0002 (m : Machine) : Reply :=
  let seg := m.bx
  if m.seg2descCache seg ≠ 0 then
    succeed (m.setR16 .eax (clientSelector m (m.seg2descCache seg)))
  else
    let idx := ldtFindRun m 1
    if idx = 0 then some (failWith m 0x8011)
    else
      let r := installLdt m idx (seg * 16) 0xFFFF (clientDataAccess m)
      let r := { r with seg2descCache := Function.update r.seg2descCache seg idx }
      succeed (r.setR16 .eax (clientSelector m idx))

/-- AX=0003 -/
def int31_0003 (m : Machine) : Reply := succeed (m.setR16 .eax 8)

/-- Edit the descriptor of the selector in BX and refresh the registers that hold it. -/
def editDesc (eng : Engine) (m : Machine) (f : Mem → Nat → Mem) : Reply :=
  if !selectorIsValid m.bx then some (failWith m 0x8022)
  else succeed (reloadLoadedSelector eng { m with mem := f m.mem (bxDesc m) } m.bx)

/-- AX=0006: the base of BX in CX:DX. -/
def int31_0006 (m : Machine) : Reply :=
  if !selectorIsValid m.bx then some (failWith m 0x8022)
  else
    let base := descBase m.mem (bxDesc m)
    succeed (m.setR16s [(.ecx, base / 65536), (.edx, base)])

/-- AX=0007: set the base of BX to CX:DX. -/
def int31_0007 (eng : Engine) (m : Machine) : Reply :=
  let base := m.cx * 65536 + m.dx
  editDesc eng m fun mem p =>
    writeb (writeb (writeb (writeb mem (p + 2) base) (p + 3) (base / 256)) (p + 4) (base / 65536))
      (p + 7) (base / 16777216)

/-- AX=0008: set the limit of BX to CX:DX bytes, in pages from 1 MB on. -/
def int31_0008 (eng : Engine) (m : Machine) : Reply :=
  let limit := m.cx * 65536 + m.dx
  let needG := 0xFFFFF < limit
  let limit := if needG then limit / 4096 else limit
  editDesc eng m fun mem p =>
    let mem := writeb (writeb mem p limit) (p + 1) (limit / 256)
    -- bits 5 and 6 stay (the mask "D, AVL" of the source), G is set or cleared
    let flags := readb mem (p + 6) / 32 % 4 * 32 + limit / 65536 % 16
    writeb mem (p + 6) (flags + if needG then 0x80 else 0)

/-- AX=0009: set the access byte of BX to CL and the flag bits to those of CH. -/
def int31_0009 (eng : Engine) (m : Machine) : Reply :=
  editDesc eng m fun mem p =>
    let mem := writeb mem (p + 5) (m.r8l .ecx)
    writeb mem (p + 6) (readb mem (p + 6) % 16 + m.r8h .ecx / 16 * 16)

/-- AX=000A: a data alias of BX. -/
def int31_000A (m : Machine) : Reply :=
  if !selectorIsValid m.bx then some (failWith m 0x8022)
  else
    let base := descBase m.mem (bxDesc m)
    let limit := descLimit m.mem (bxDesc m)
    let newIdx := ldtFindRun m 1
    if newIdx = 0 then some (failWith m 0x8011)
    else
      let r := installLdt m newIdx base limit (clientDataAccess m)
      succeed (r.setR16 .eax (clientSelector m newIdx))

/-- Copy eight bytes, one at a time. -/
def copyDesc (mem : Mem) (dst src : Nat) : Mem :=
  (List.range 8).foldl (fun mem i => writeb mem (lin (dst + i)) (readb mem (lin (src + i)))) mem

/-- AX=000B: the descriptor of BX to ES:EDI. -/
def int31_000B (m : Machine) : Reply :=
  if !selectorIsValid m.bx then some (failWith m 0x8022)
  else succeed { m with mem := copyDesc m.mem (esBuffer m .edi) (bxDesc m) }

/-- AX=000C: the descriptor of BX from ES:EDI. -/
def int31_000C (eng : Engine) (m : Machine) : Reply :=
  editDesc eng m fun mem p => copyDesc mem p (esBuffer m .edi)

/-- AX=000D: allocate the slot of the selector BX. -/
def int31_000D (m : Machine) : Reply :=
  if m.bx / 4 % 2 = 0 then some (failWith m 0x8022)
  else
    let idx := m.bx / 8
    if idx = 0 ∨ LDT_COUNT ≤ idx ∨ ldtBit m idx then some (failWith m 0x8011)
    else succeed (installLdt m idx 0 0 0x92)

/-! ### Vectors (AX=0200 to 0205) -/

/-- AX=0200: the real-mode vector BL in CX:DX. -/
def int31_0200 (m : Machine) : Reply :=
  let v := m.bl * 4
  succeed (m.setR16s [(.edx, readw m.mem v), (.ecx, readw m.mem (v + 2))])

/-- AX=0201: set the real-mode vector BL to CX:DX. -/
def int31_0201 (m : Machine) : Reply :=
  let v := m.bl * 4
  succeed { m with mem := writew (writew m.mem v m.dx) (v + 2) m.cx }

/-- AX=0202: the exception handler of BL in CX:EDX. -/
def int31_0202 (m : Machine) : Reply :=
  if 32 ≤ m.bl then some (failWith m 0x8021)
  else succeed ((m.setR16 .ecx (m.pmExc m.bl).sel).setR32 .edx (m.pmExc m.bl).off)

/-- The D bit of the code segment a handler names. -/
def handlerBits32 (m : Machine) (sel : Nat) : Bool := (getDescriptor m sel).any (descBig m.mem)

/-- AX=0203: CX:EDX becomes the exception handler of BL.  The gate of a 32-bit handler goes to
    the vector's trampoline, that of a 16-bit one to the handler itself. -/
def int31_0203 (m : Machine) : Reply :=
  if 32 ≤ m.bl then some (failWith m 0x8021)
  else
    let bits32 := handlerBits32 m m.cx
    let tramp := m.stubs.pmExcCb32 m.bl
    let mem := if bits32 ∧ tramp ≠ 0 then writeIdtGate m.mem m.bl PM_CB_SEL tramp true
      else writeIdtGate m.mem m.bl m.cx (m.r32 .edx) bits32
    succeed { m with mem := mem, pmExc := Function.update m.pmExc m.bl ⟨m.cx, m.r32 .edx⟩ }

/-- The offset and the selector of the gate at `p`. -/
def gateOffset (mem : Mem) (p : Nat) : Nat :=
  readb mem p + readb mem (p + 1) * 256 + readb mem (p + 6) * 65536 + readb mem (p + 7) * 16777216
def gateSelector (mem : Mem) (p : Nat) : Nat := readb mem (p + 2) + readb mem (p + 3) * 256

/-- AX=0204: the protected-mode vector BL in CX:EDX. -/
def int31_0204 (m : Machine) : Reply :=
  let gate := IDT_BASE + m.bl * 8
  succeed ((m.setR16 .ecx (gateSelector m.mem gate)).setR32 .edx (gateOffset m.mem gate))

/-- AX=0205: set the protected-mode vector BL to CX:EDX, as wide as its code segment. -/
def int31_0205 (m : Machine) : Reply :=
  let bits32 := if m.cx / 4 = 0 then m.cpu.codeBig
    else (getDescriptor m m.cx).elim m.cpu.codeBig (descBig m.mem)
  succeed { m with mem := writeIdtGate m.mem m.bl m.cx (m.r32 .edx) bits32 }

/-! ### Real-mode callbacks and stubs (AX=0303 to 0306) -/

/-- AX=0303: allocate a callback for DS:ESI with its structure at ES:EDI. -/
def int31_0303 (m : Machine) : Reply :=
  match m.rmCallbacks.findIdx? (!·.allocated) with
  | none => some (failWith m 0x8015)
  | some slot =>
    let take := fun cb : RmCallback =>
      { cb with
        allocated := true
        pmCs := m.segVal .ds
        pmEip := m.r32 .esi
        structSel := m.segVal .es
        structOff := m.r32 .edi }
    let addr := (m.rmCallbacks[slot]?.map (·.rmAddr)).getD 0
    let r := { m with rmCallbacks := m.rmCallbacks.modify slot take }
    succeed (r.setR16s [(.ecx, addr / 65536), (.edx, addr)])

/-- AX=0304: free the callback at CX:DX. -/
def int31_0304 (m : Machine) : Reply :=
  let target := m.cx * 65536 + m.dx
  match m.rmCallbacks.findIdx? (fun cb => cb.allocated && cb.rmAddr == target) with
  | none => some (failWith m 0x8024)
  | some slot =>
    succeed { m with rmCallbacks := m.rmCallbacks.modify slot ({ · with allocated := false }) }

/-- The answer of AX=0305 and 0306: the no-op routine in BX:CX and SI:EDI. -/
def noopRoutines (m : Machine) : Machine :=
  let p := m.stubs.noopRetfPtr
  (m.setR16s [(.ebx, p / 65536), (.ecx, p), (.esi, p / 65536)]).setR32 .edi (p % 65536)

/-- AX=0305 -/
def int31_0305 (m : Machine) : Reply := succeed (noopRoutines (m.setR16 .eax 0))

/-- AX=0306 -/
def int31_0306 (m : Machine) : Reply := succeed (noopRoutines m)

/-! ### Version, memory information, pages (AX=0400 to 0801) -/

/-- AX=0400 -/
def int31_0400 (m : Machine) : Reply :=
  succeed ((((m.setR16s [(.eax, 0x005A), (.ebx, 0x0002)]).setR8l .ecx 3).setR8h .edx 0x08).setR8l
    .edx 0x70)

/-- AX=0401: version and vendor to ES:EDI. -/
def int31_0401 (m : Machine) : Reply :=
  let r := ((m.setR16s [(.eax, 0x0020), (.ebx, 0), (.ecx, 0)]).setR8h .edx 0).setR8l .edx 0x5A
  let name := [0x64, 0x6F, 0x73, 0x69, 0x7A, 0x00]
  succeed { r with mem := putBytes m.mem (esBuffer m .edi) ([0, 1] ++ name) }

/-- The walk of AX=0500: the size of the largest free block.  It goes on while the segment is
    below the arena's end and stops at a 'Z'; more than 65536 steps are steps without end. -/
def largestWalk (mem : Mem) : Nat → Nat → Nat → Option Nat
  | 0, _, _ => none
  | fuel + 1, seg, largest =>
    if MCB_ARENA_END ≤ seg then some largest
    else
      let m := seg * 16
      let size := readw mem (m + 3)
      let largest := if readw mem (m + 1) = 0 ∧ largest < size then size else largest
      if readb mem m = 0x5A then some largest
      else largestWalk mem fuel ((seg + 1 + size) % 65536) largest

/-- AX=0500: 48 bytes of memory information to ES:EDI. -/
def int31_0500 (m : Machine) : Reply :=
  let m := mcbReady m
  match largestWalk m.mem 65537 MCB_ARENA_START 0 with
  | none => none
  | some paras =>
    let bytes := paras * 16
    let none_ := 0xFFFFFFFF
    let info := [bytes, bytes / 4096, bytes / 4096, none_, bytes / 4096, none_, none_, none_, none_,
      none_, none_, none_]
    succeed { m with mem := putDwords m.mem (esBuffer m .edi) info }

/-- AX=0506: every page is committed, writable, accessed, dirty. -/
def int31_0506 (m : Machine) : Reply :=
  succeed { m with mem := putWords m.mem (esBuffer m .edx) (List.replicate m.cx 0x0039) }

/-- AX=0508 and 0509 -/
def int31_0508 (m : Machine) : Reply := some (failWith m 0x8025)

/-- AX=0604: the page size in BX:CX. -/
def int31_0604 (m : Machine) : Reply := succeed (m.setR16s [(.ebx, 0), (.ecx, 4096)])

/-! ### Virtual interrupts, watchpoints, coprocessor (AX=0900 to 0E01) -/

/-- AX=0900, 0901 and 0902: the virtual interrupt flag in AL, and what it becomes. -/
def int31_09 (new : Bool → Bool) (m : Machine) : Reply :=
  succeed { m.setR8l .eax (if m.virtualIf then 1 else 0) with virtualIf := new m.virtualIf }

def int31_0900 : Machine → Reply := int31_09 fun _ => false
def int31_0901 : Machine → Reply := int31_09 fun _ => true
def int31_0902 : Machine → Reply := int31_09 id

/-- AX=0B00 to 0B03 -/
def int31_0B00 (m : Machine) : Reply := succeed (m.setR16 .ebx 0)

/-- AX=0E00 -/
def int31_0E00 (m : Machine) : Reply := succeed (m.setR16 .eax 0x31)

/-! ### The dispatcher -/

/-- `default:` -/
def int31_default (m : Machine) : Reply := some (failWith m 0x8001)

/-- The functions by AX, AX=0300 to 0302 excepted. -/
def int31Table (eng : Engine) : List (Nat × (Machine → Reply)) :=
  [(0x0400, int31_0400), (0x0401, int31_0401), (0x0000, int31_0000), (0x0001, int31_0001),
    (0x0002, int31_0002), (0x0003, int31_0003), (0x0008, int31_0008 eng), (0x0009, int31_0009 eng),
    (0x000A, int31_000A), (0x000B, int31_000B), (0x000C, int31_000C eng), (0x000D, int31_000D),
    (0x0100, int31_0100), (0x0102, int31_0102), (0x0101, int31_0101), (0x0202, int31_0202),
    (0x0203, int31_0203), (0x0305, int31_0305), (0x0303, int31_0303), (0x0304, int31_0304),
    (0x0306, int31_0306), (0x0600, succeed), (0x0601, succeed), (0x0602, succeed), (0x0603, succeed),
    (0x0702, succeed), (0x0703, succeed), (0x0801, succeed), (0x0B00, int31_0B00),
    (0x0B01, int31_0B00), (0x0B02, int31_0B00), (0x0B03, int31_0B00), (0x0604, int31_0604),
    (0x0800, succeed), (0x0204, int31_0204), (0x0205, int31_0205), (0x0900, int31_0900),
    (0x0901, int31_0901), (0x0902, int31_0902), (0x0200, int31_0200), (0x0201, int31_0201),
    (0x0500, int31_0500), (0x0006, int31_0006), (0x0007, int31_0007 eng), (0x0501, int31_0501),
    (0x0502, int31_0502), (0x0503, int31_0503), (0x0506, int31_0506), (0x0507, succeed),
    (0x0508, int31_0508), (0x0509, int31_0508), (0x0E00, int31_0E00), (0x0E01, succeed)]

/-- AX names a function that runs the guest before it answers. -/
def runsGuest (ax : Nat) : Bool := ax = 0x0300 || ax = 0x0301 || ax = 0x0302

/-- `dosiz_int31`, for the functions that answer at once. -/
def dosizInt31 (eng : Engine) (m : Machine) : Option Machine :=
  finish ((((int31Table eng).lookup m.ax).getD int31_default) m)

end Dosiz
