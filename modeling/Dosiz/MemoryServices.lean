/-
  Dosiz/MemoryServices.lean
  =========================
  **The services that allocate, free and resize memory.**

  INT 21h AH=48/49/4A and INT 31h AX=0100/0101/0102 (DOS blocks) and
  AX=0501/0502/0503 (DPMI blocks) of `bridge.cc`, up to the `set_cf` each of them ends
  in (`finish`).
-/
import Dosiz.Descriptors
import Dosiz.Mcb
import Dosiz.PmArena

namespace Dosiz

open ByteMemory Machine Mcb PmArena

/-! ### INT 21h -/

/-- AH=48: allocate BX paragraphs. -/
def int21_48 (m : Machine) : Reply :=
  match mcbAllocate m m.bx with
  | none => none
  | some (m, seg, largest) =>
    if seg = 0 then some (m.setR16s [(.eax, 0x08), (.ebx, largest)], true)
    else some (m.setR16 .eax seg, false)

/-- AH=49: free the block at ES. -/
def int21_49 (m : Machine) : Reply :=
  let r := mcbFree m (m.segVal .es)
  if r.2 then some (r.1, false) else some (failWith r.1 0x09)

/-- AH=4A: resize the block at ES to BX paragraphs.  The top-level program's own block has a
    lone header below the PSP; other blocks below the arena are accepted as they are. -/
def int21_4A (m : Machine) : Reply :=
  if m.segVal .es = PSP_SEG then
    some ({ m with mem := writew m.mem ((PSP_SEG - 1) * 16 + 3) m.bx }, false)
  else if m.segVal .es < MCB_ARENA_START then some (m, false)
  else
    let r := mcbResize m (m.segVal .es) m.bx
    if r.2.1 = m.bx then some (r.1, false)
    else some (r.1.setR16s [(.eax, 0x08), (.ebx, r.2.2)], true)

/-! ### INT 31h: DOS memory blocks -/

/-- AX=0100: allocate a DOS block and an LDT selector for it; the block is given back when
    the LDT is full. -/
def int31_0100 (m : Machine) : Reply :=
  if m.bx = 0 then some (failWith m 0x8021)
  else
    match mcbAllocate m m.bx with
    | none => none
    | some (m, dataSeg, largest) =>
      if dataSeg = 0 then some (m.setR16s [(.eax, 0x8013), (.ebx, largest)], true)
      else
        let ldtIdx := ldtFindRun m 1
        if ldtIdx = 0 then some (failWith (mcbFree m dataSeg).1 0x8011)
        else
          let m := ldtSet m ldtIdx true
          let limitBytes := lin (m.bx * 16 + 0xFFFFFFFF)
          let m := { m with
            mem := writeLdtDescriptor m.mem ldtIdx (dataSeg * 16) limitBytes (clientDataAccess m) false
            seg2descCache := Function.update m.seg2descCache dataSeg ldtIdx }
          some (m.setR16s [(.eax, dataSeg), (.edx, clientSelector m ldtIdx)], false)

/-- The slot an AX=0101/0102 selector names: an allocated LDT slot. -/
def dosBlockSlot (m : Machine) (sel : Nat) : Option Nat :=
  if sel / 4 % 2 = 0 ∨ !selectorIsValid sel then none
  else if ldtBit m (sel / 8) then some (sel / 8) else none

/-- The real-mode segment a slot's descriptor aliases. -/
def slotDataSeg (m : Machine) (idx : Nat) : Nat := descBase m.mem (LDT_BASE + idx * 8) / 16 % 65536

/-- AX=0101: free a DOS block and its selector. -/
def int31_0101 (m : Machine) : Reply :=
  match dosBlockSlot m m.dx with
  | none => some (failWith m 0x8022)
  | some idx =>
    let dataSeg := slotDataSeg m idx
    let m := (mcbFree m dataSeg).1
    let m := ldtSet { m with seg2descCache := Function.update m.seg2descCache dataSeg 0 } idx false
    some ({ m with mem := writeLdtDescriptor m.mem idx 0 0 0 false }, false)

/-- AX=0102: resize a DOS block and the limit of its selector. -/
def int31_0102 (m : Machine) : Reply :=
  match dosBlockSlot m m.bx with
  | none => some (failWith m 0x8022)
  | some idx =>
    let r := mcbResize m (slotDataSeg m idx) m.dx
    if r.2.1 ≠ m.dx then some (r.1.setR16s [(.eax, 0x8013), (.ebx, r.2.2)], true)
    else
      let p := LDT_BASE + idx * 8
      let newLimitBytes := lin (m.dx * 16 + 0xFFFFFFFF)
      let mem := writeb (writeb r.1.mem p newLimitBytes) (p + 1) (newLimitBytes / 256)
      let flags := readb mem (p + 6)
      some ({ r.1 with mem := writeb mem (p + 6) (flags / 16 * 16 + newLimitBytes / 65536 % 16) },
        false)

/-! ### INT 31h: DPMI memory blocks -/

/-- The size in BX:CX. -/
def sizeArg (m : Machine) : Nat := m.bx * 65536 + m.cx

/-- The linear address in SI:DI, the handle of a block of the protected-mode arena. -/
def handleArg (m : Machine) : Nat := m.si * 65536 + m.di

/-- `(bytes + 15u) >> 4`; the sum may wrap. -/
def bytesToParas (bytes : Nat) : Nat := lin (bytes + 15) / 16

/-- AX=0501: allocate a block, in the protected-mode arena or else in the MCB arena. -/
def int31_0501 (m : Machine) : Reply :=
  let bytes := sizeArg m
  if bytes = 0 then some (failWith m 0x8021)
  else
    let r := pmAlloc m bytes
    let linear := r.2
    let m := r.1
    if linear ≠ 0 then
      some (m.setR16s [(.ebx, linear / 65536), (.ecx, linear), (.esi, linear / 65536),
        (.edi, linear)], false)
    else
      let paras32 := bytesToParas bytes
      if 0 < paras32 ∧ paras32 ≤ 0xFFFF then
        match mcbAllocate m paras32 with
        | none => none
        | some (m, dataSeg, _) =>
          if dataSeg ≠ 0 then
            some (m.setR16s [(.ebx, dataSeg * 16 / 65536), (.ecx, dataSeg * 16), (.esi, 0),
              (.edi, dataSeg)], false)
          else some (failWith m 0x8012)
      else some (failWith m 0x8012)

/-- AX=0502: free the block SI:DI. -/
def int31_0502 (m : Machine) : Reply :=
  if m.si = 0 then
    if m.di < MCB_ARENA_START ∨ MCB_ARENA_END ≤ m.di then some (failWith m 0x8023)
    else
      let r := mcbFree m m.di
      if r.2 then some (r.1, false) else some (failWith r.1 0x8023)
  else
    let r := pmFree m (handleArg m)
    if r.2 then some (r.1, false) else some (failWith r.1 0x8023)

/-- AX=0503: resize the block SI:DI to BX:CX bytes, in place. -/
def int31_0503 (m : Machine) : Reply :=
  let newBytes := sizeArg m
  if newBytes = 0 then some (failWith m 0x8021)
  else if m.si = 0 then
    if m.di < MCB_ARENA_START ∨ MCB_ARENA_END ≤ m.di then some (failWith m 0x8023)
    else
      let newParas32 := bytesToParas newBytes
      if 0xFFFF < newParas32 then some (failWith m 0x8012)
      else
        let r := mcbResize m m.di newParas32
        if r.2.1 ≠ newParas32 then some (failWith r.1 0x8012)
        else
          let linear := m.di * 16
          some (r.1.setR16s [(.ebx, linear / 65536), (.ecx, linear)], false)
  else
    let base := handleArg m
    let r := pmResize m base newBytes
    if r.2 then some (r.1.setR16s [(.ebx, base / 65536), (.ecx, base)], false)
    else some (failWith r.1 0x8012)

end Dosiz
