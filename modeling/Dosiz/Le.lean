/-
  Dosiz/Le.lean
  =============
  **Loading a linear executable** (`load_le_inspect`, `le_load_objects`,
  `le_apply_fixups`, `le_install_descriptors`, `le_launch_pm_prep` and the LE branch of
  `load_exe_at` in `bridge.cc`).

  An LE file is a header, a table of objects, a map of pages and, for each page, a run
  of fixup records.  The loader gives each object a block of memory, copies its pages,
  installs a descriptor for it and patches the records' targets into the image.

  A read of the file buffer is partial: `none` is an access past its end, and so is, in
  the functions that allocate, a walk of the memory chain that never ends.  All sums of
  file fields are `uint32_t` unless the source mixes in a `size_t`.
-/
import Dosiz.DpmiEntry

namespace Dosiz

open ByteMemory Machine Mcb PmArena

/-! ### Reading the file -/

/-- `f[off]` -/
def byteAt (f : List UInt8) (off : Nat) : Option Nat := f[off]?.map UInt8.toNat

def rdw (f : List UInt8) (off : Nat) : Option Nat := do
  let lo ← byteAt f off
  let hi ← byteAt f (off + 1)
  return lo + 256 * hi

def rdd (f : List UInt8) (off : Nat) : Option Nat := do
  let lo ← rdw f off
  let hi ← rdw f (off + 2)
  return lo + 65536 * hi

/-- Bytes stored one by one; addresses are `uint32_t`. -/
def storeLin (mem : Mem) (a : Nat) : List Nat → Mem
  | [] => mem
  | b :: bs => storeLin (writeb mem (lin a) b) (a + 1) bs

/-- `n` equal bytes from the linear address `a` on. -/
def fillLin (mem : Mem) (a n v : Nat) : Mem := fun x =>
  if x < 4294967296 ∧ lin (x + (4294967296 - lin a)) < n then UInt8.ofNat v else mem x

/-- `InitialRegs` -/
structure InitialRegs where
  cs : Nat
  ip : Nat
  ss : Nat
  sp : Nat
  ax : Nat
  isPm : Bool := false
  is32bit : Bool := false
  pmDs : Nat := 0
  pmEip : Nat := 0
  pmEsp : Nat := 0

namespace Le

/-- `LeObject` -/
structure LeObject where
  virtBase : Nat
  virtSize : Nat
  flags : Nat
  firstPage : Nat
  pageCount : Nat
  hostBase : Nat := 0
  hostSeg : Nat := 0
  ldtSel : Nat := 0
deriving DecidableEq, Repr

def LeObject.isCode (o : LeObject) : Bool := o.flags / 4 % 2 = 1
def LeObject.isBig (o : LeObject) : Bool := o.flags / 8192 % 2 = 1

/-- The header fields the loader works with. -/
structure LeHeader where
  totalPages : Nat
  pageSize : Nat
  lastPageSz : Nat
  objTblOff : Nat
  numObjects : Nat
  pageTblOff : Nat
  dataPages : Nat

def readHeader (f : List UInt8) (le : Nat) : Option LeHeader := do
  let numObjects ← rdd f (le + 0x44)
  let objTblOff ← rdd f (le + 0x40)
  let pageTblOff ← rdd f (le + 0x48)
  let pageSize ← rdd f (le + 0x28)
  let lastPageSz ← rdd f (le + 0x2C)
  let totalPages ← rdd f (le + 0x14)
  let dataPages ← rdd f (le + 0x80)
  return ⟨totalPages, pageSize, lastPageSz, objTblOff, numObjects, pageTblOff, dataPages⟩

/-- Where the table entry of object `i` (from 0) is. -/
def LeHeader.entryOff (h : LeHeader) (le i : Nat) : Nat := le + h.objTblOff + lin (i * 24)

def readObject (f : List UInt8) (e : Nat) : Option LeObject := do
  let virtSize ← rdd f e
  let virtBase ← rdd f (e + 0x04)
  let flags ← rdd f (e + 0x08)
  let firstPage ← rdd f (e + 0x0C)
  let pageCount ← rdd f (e + 0x10)
  return { virtBase, virtSize, flags, firstPage, pageCount }

/-- The table entries `load_le_inspect` prints, from number `i` on, `n` of them. -/
def inspectObjects (f : List UInt8) (le : Nat) (h : LeHeader) : Nat → Nat → Option Unit
  | 0, _ => some ()
  | n + 1, i => do
    if f.length < h.entryOff le i + 24 then return ()
    let _ ← readObject f (h.entryOff le i)
    inspectObjects f le h n (i + 1)

/-- `load_le_inspect`; what it prints is left out. -/
def loadLeInspect (f : List UInt8) (le : Nat) : Option Bool := do
  if f.length < le + 0xB0 then return false
  let c₀ ← byteAt f le
  let c₁ ← byteAt f (le + 1)
  if ¬ (c₀ = 0x4C ∧ (c₁ = 0x45 ∨ c₁ = 0x58)) then return false
  let _ ← rdw f (le + 0x08)
  let _ ← rdd f (le + 0x18)
  let _ ← rdd f (le + 0x1C)
  let _ ← rdd f (le + 0x20)
  let _ ← rdd f (le + 0x24)
  let h ← readHeader f le
  inspectObjects f le h (min h.numObjects 16) 0
  return true

/-! ### Objects and their pages -/

/-- A block of the MCB arena for an object, if it fits in 64K paragraphs: its segment, or 0. -/
def leAllocateLow (m : Machine) (virtSize : Nat) : Option (Machine × Nat) :=
  let paras := lin (virtSize + 15) / 16
  let allocParas := if paras = 0 then 1 else paras
  if allocParas ≤ 0xFFFF then (mcbAllocate m allocParas).map fun r => (r.1, r.2.1)
  else some (m, 0)

/-- A block for an object, there or above 1 MB: the segment (0 if above) and the linear address (0
    if there is no room). -/
def leAllocate (m : Machine) (virtSize : Nat) : Option (Machine × Nat × Nat) :=
  match leAllocateLow m virtSize with
  | none => none
  | some (m, seg) =>
    if seg ≠ 0 then some (m, seg, seg * 16)
    else
      let high := pmAlloc m (if virtSize ≠ 0 then virtSize else 16)
      some (high.1, 0, high.2)

/-- The bytes of the file from `src` on, up to `n` of them, as far as the file goes. -/
def fileBytes (f : List UInt8) (src : Nat) : Nat → Nat → List Nat
  | 0, _ => []
  | n + 1, j =>
    match byteAt f (lin (src + j)) with
    | none => []
    | some b => b :: fileBytes f src n (j + 1)

/-- What is copied for page `p` of an object: the offset in the object and the bytes.  Nothing for
    a page the map does not have, one that is not of type 0, or number 0. -/
def pageCopy (f : List UInt8) (le : Nat) (h : LeHeader) (o : LeObject) (p : Nat) :
    Option (Nat × List Nat) := do
  let idx := lin (o.firstPage + 4294967295 + p)
  if h.totalPages ≤ idx then return (0, [])
  let entry := le + h.pageTblOff + lin (idx * 4)
  if f.length < entry + 4 then return (0, [])
  let b₀ ← byteAt f entry
  let b₁ ← byteAt f (entry + 1)
  let b₂ ← byteAt f (entry + 2)
  let ptype ← byteAt f (entry + 3)
  let pnum := b₀ * 65536 + b₁ * 256 + b₂
  if ptype ≠ 0 ∨ pnum = 0 then return (0, [])
  let src := lin (h.dataPages + (pnum - 1) * h.pageSize)
  let copyBytes := if pnum = h.totalPages ∧ h.lastPageSz ≠ 0 then h.lastPageSz else h.pageSize
  let dstOff := lin (p * h.pageSize)
  let copyBytes :=
    if o.virtSize < lin (dstOff + copyBytes) then lin (o.virtSize + 4294967296 - dstOff) else copyBytes
  return (dstOff, fileBytes f src copyBytes 0)

/-- The pages of an object from number `p` on, `n` of them. -/
def copyPages (f : List UInt8) (le : Nat) (h : LeHeader) (o : LeObject) : Nat → Nat → Mem → Option Mem
  | 0, _, mem => some mem
  | n + 1, p, mem => do
    let c ← pageCopy f le h o p
    copyPages f le h o n (p + 1) (storeLin mem (o.hostBase + c.1) c.2)

/-- One object: `none` inside when it cannot be loaded. -/
def leLoadObject (f : List UInt8) (le : Nat) (h : LeHeader) (i : Nat) (m : Machine) :
    Option (Machine × Option LeObject) := do
  if f.length < h.entryOff le i + 24 then return (m, none)
  let o ← readObject f (h.entryOff le i)
  let r ← leAllocate m o.virtSize
  if r.2.2 = 0 then return (r.1, none)
  let o := { o with hostSeg := r.2.1, hostBase := r.2.2 }
  let mem ← copyPages f le h o o.pageCount 0 (fillLin r.1.mem o.hostBase o.virtSize 0)
  return (r.1.setMem mem, some o)

/-- The objects from number `i` on, `n` of them: the objects loaded, and whether all were. -/
def leLoadFrom (f : List UInt8) (le : Nat) (h : LeHeader) :
    Nat → Nat → Machine → List LeObject → Option (Machine × List LeObject × Bool)
  | 0, _, m, objects => some (m, objects, true)
  | n + 1, i, m, objects => do
    match ← leLoadObject f le h i m with
    | (m, none) => return (m, objects, false)
    | (m, some o) => leLoadFrom f le h n (i + 1) m (objects ++ [o])

/-- `le_load_objects` -/
def leLoadObjects (f : List UInt8) (le : Nat) (m : Machine) :
    Option (Machine × List LeObject × Bool) := do
  let h ← readHeader f le
  leLoadFrom f le h h.numObjects 0 m []

/-! ### Fixups -/

/-- A patch of the loaded image: the object, the offset in it, the bytes. -/
structure Patch where
  src : LeObject
  off : Nat
  bytes : List Nat
deriving DecidableEq, Repr

def Patch.addr (p : Patch) : Nat := lin (p.src.hostBase + p.off)

def le16 (v : Nat) : List Nat := [v % 256, v / 256 % 256]
def le32 (v : Nat) : List Nat := le16 v ++ le16 (v / 65536)

/-- The bytes a source type puts at `srcAddr`, for a target in object `target`. -/
def patchBytes (srcType srcAddr tgtOff : Nat) (target : LeObject) : List Nat :=
  let targetLinear := lin (target.hostBase + tgtOff)
  match srcType % 16 with
  | 0x05 => le16 targetLinear
  | 0x07 => le32 targetLinear
  | 0x08 => le32 (lin (targetLinear + 4294967296 - lin (srcAddr + 4)))
  | 0x02 => le16 target.ldtSel
  | 0x06 => le32 tgtOff ++ le16 target.ldtSel
  | 0x03 => le16 tgtOff ++ le16 target.ldtSel
  | 0x00 => [targetLinear % 256]
  | _ => []

/-- What a record comes to: the loop ends with `return false`, or goes on at a new cursor. -/
inductive RecordStep where
  | stop
  | next (p : Nat) (patch : Option Patch)
deriving DecidableEq, Repr

/-- The patch of a record whose fields have been read. -/
def recordPatch (objects : List LeObject) (src : LeObject) (pageOff srcType srcOff tgtObj tgtOff : Nat) :
    Option Patch :=
  match (if tgtObj = 0 then none else objects[tgtObj - 1]?) with
  | none => none
  | some target =>
    -- `int16_t`: an offset from 8000h on lies before the page
    let off := lin (pageOff + if 0x8000 ≤ srcOff then srcOff + 4294901760 else srcOff)
    if 0x80000000 ≤ off ∨ src.virtSize ≤ off then none
    else some ⟨src, off, patchBytes srcType (lin (src.hostBase + off)) tgtOff target⟩

/-- The target's object number: a byte or a word; its offset: a word or a dword. -/
def readUnit (f : List UInt8) (wide : Bool) (p : Nat) : Option Nat :=
  if wide then rdw f p else byteAt f p
def readOffset (f : List UInt8) (long : Bool) (p : Nat) : Option Nat :=
  if long then rdd f p else rdw f p

/-- One fixup record at `p`. -/
def leRecord (f : List UInt8) (objects : List LeObject) (src : LeObject) (pageOff p : Nat) :
    Option RecordStep := do
  let srcType ← byteAt f p
  let tgtFlags ← byteAt f (p + 1)
  let srcOff ← rdw f (p + 2)
  if tgtFlags % 4 ≠ 0 then return .stop
  if f.length ≤ p + 4 then return .stop
  let wide : Bool := tgtFlags / 64 % 2 = 1
  let tgtObj ← readUnit f wide (p + 4)
  let p := p + 4 + if wide then 2 else 1
  if srcType % 16 = 2 then
    return .next p (recordPatch objects src pageOff srcType srcOff tgtObj 0)
  let long : Bool := tgtFlags / 16 % 2 = 1
  if f.length < p + (if long then 4 else 2) then return .stop
  let tgtOff ← readOffset f long p
  return .next (p + if long then 4 else 2) (recordPatch objects src pageOff srcType srcOff tgtObj tgtOff)

/-- The records of a page: the patches in order, and whether the end was reached.  A record has five
    bytes at least, so the length of the file is fuel enough. -/
def leRecords (f : List UInt8) (objects : List LeObject) (src : LeObject) (pageOff pEnd : Nat) :
    Nat → Nat → Option (List Patch × Bool)
  | 0, _ => some ([], true)
  | fuel + 1, p => do
    if ¬ (p + 5 ≤ pEnd ∧ p + 5 ≤ f.length) then return ([], true)
    match ← leRecord f objects src pageOff p with
    | .stop => return ([], false)
    | .next p patch =>
      let rest ← leRecords f objects src pageOff pEnd fuel p
      return (patch.toList ++ rest.1, rest.2)

/-- `find_obj_for_page` -/
def findObjForPage (objects : List LeObject) (page : Nat) : Option LeObject :=
  objects.find? fun o => o.firstPage ≤ page && page < lin (o.firstPage + o.pageCount)

/-- The fields `le_apply_fixups` reads. -/
structure FixupTables where
  numPages : Nat
  pageSize : Nat
  pageTbl : Nat
  recTbl : Nat

def readFixupTables (f : List UInt8) (le : Nat) : Option FixupTables := do
  let numPages ← rdd f (le + 0x14)
  let pageSize ← rdd f (le + 0x28)
  let pageTbl ← rdd f (le + 0x68)
  let recTbl ← rdd f (le + 0x6C)
  return ⟨numPages, pageSize, pageTbl, recTbl⟩

/-- The pages from number `pg` (from 0) on, `n` of them. -/
def lePages (f : List UInt8) (le : Nat) (t : FixupTables) (objects : List LeObject) :
    Nat → Nat → Option (List Patch × Bool)
  | 0, _ => some ([], true)
  | n + 1, pg => do
    let next := le + t.pageTbl + lin ((pg + 1) * 4)
    if f.length < next + 4 then return ([], false)
    let recStart ← rdd f (le + t.pageTbl + lin (pg * 4))
    let recEnd ← rdd f next
    if recEnd < recStart then return ([], false)
    match (if recStart = recEnd then none else findObjForPage objects (pg + 1)) with
    | none => lePages f le t objects n (pg + 1)
    | some src =>
      let pageOff := lin ((pg + 1 + 4294967296 - src.firstPage) * t.pageSize)
      let r ← leRecords f objects src pageOff (le + t.recTbl + recEnd) f.length
        (le + t.recTbl + recStart)
      if r.2 then
        let rest ← lePages f le t objects n (pg + 1)
        return (r.1 ++ rest.1, rest.2)
      else return r

/-- The patches of `le_apply_fixups`, in order, and what it returns. -/
def leFixups (f : List UInt8) (le : Nat) (objects : List LeObject) : Option (List Patch × Bool) := do
  let t ← readFixupTables f le
  if t.pageTbl = 0 ∨ t.recTbl = 0 ∨ t.numPages = 0 then return ([], true)
  lePages f le t objects t.numPages 0

def applyPatches (mem : Mem) (patches : List Patch) : Mem :=
  patches.foldl (fun mem p => storeLin mem p.addr p.bytes) mem

/-- `le_apply_fixups` -/
def leApplyFixups (f : List UInt8) (le : Nat) (objects : List LeObject) (mem : Mem) :
    Option (Mem × Bool) := do
  let r ← leFixups f le objects
  return (applyPatches mem r.1, r.2)

/-! ### Descriptors and tables -/

/-- The descriptors of the objects, from slot `idx` on. -/
def installDescriptors : Nat → List LeObject → Machine → Machine × List LeObject
  | _, [], m => (m, [])
  | idx, o :: objects, m =>
    let access := if o.isCode then 0x9A else 0x92
    let m := ldtSet (m.setMem (writeLdtDescriptor m.mem idx o.hostBase (o.virtSize - 1) access o.isBig))
      idx true
    let r := installDescriptors (idx + 1) objects m
    (r.1, { o with ldtSel := (idx * 8 + 4) % 65536 } :: r.2)

/-- `le_install_descriptors` -/
def leInstallDescriptors (m : Machine) (objects : List LeObject) : Option (Machine × List LeObject) :=
  let need := objects.length % 65536
  let start := ldtFindRun m need
  if start = 0 then none
  else
    let r := installDescriptors start (objects.take need) m
    some (r.1, r.2 ++ objects.drop need)

/-- `le_launch_pm_prep`; the mask it writes to the interrupt controller is left out. -/
def leLaunchPmPrep (m : Machine) (bits32 : Bool) : Machine :=
  let m := pmSetupGdtAndIdt m bits32 (m.segVal .cs) (m.segVal .ds) (m.segVal .ss) (m.segVal .es)
  let cbOff := if bits32 then m.stubs.leExcCb32 else m.stubs.leExcCb16
  if cbOff = 0 then m
  else
    m.setMem ((List.range 0x20).foldl (fun mem v =>
      if v = 0x1A then mem
      else
        let per := if bits32 then m.stubs.pmExcCb32 v else 0
        writeIdtGate mem v PM_CB_SEL (if per ≠ 0 then per else cbOff) bits32) m.mem)

/-! ### The LE branch of `load_exe_at` -/

/-- The release of the objects after `le_load_objects` has failed. -/
def releaseObjects (m : Machine) (objects : List LeObject) : Machine :=
  objects.foldl (fun m o =>
    if o.hostSeg ≠ 0 then (mcbFree m o.hostSeg).1
    else if o.hostBase ≠ 0 then (pmFree m o.hostBase).1
    else m) m

/-- The last data object, counted from 1; 0 if there is none. -/
def lastDataObject (objects : List LeObject) : Nat :=
  match objects.reverse.findIdx? (fun o => !o.isCode) with
  | none => 0
  | some i => objects.length - i

/-- The stack's object, counted from 1: the header's, or the automatic data object, or the last data
    object. -/
def stackObject (objects : List LeObject) (stackObj autoObj : Nat) : Nat :=
  if stackObj ≠ 0 ∧ stackObj ≤ objects.length then stackObj
  else if autoObj ≠ 0 ∧ autoObj ≤ objects.length then autoObj
  else if lastDataObject objects ≠ 0 then lastDataObject objects
  else stackObj

/-- The two flat selectors: slot of the first, or 0 and nothing changed. -/
def flatSelectors (m : Machine) : Machine × Nat :=
  let run := ldtFindRun m 2
  if run = 0 then (m, 0)
  else
    let mem := writeLdtDescriptor m.mem run 0 0xFFFFF 0x92 true
    let mem := writeLdtDescriptor mem (run + 1) 0 0xFFFFF 0x9A true
    let mem := writeb mem (LDT_BASE + run * 8 + 6) 0xCF
    let mem := writeb mem (LDT_BASE + (run + 1) * 8 + 6) 0xCF
    (ldtSet (ldtSet (m.setMem mem) run true) (run + 1) true, run)

/-- ESP for a program without a stack object: the top of a block of its own, or of the object that
    stands in. -/
def synthStack (f : List UInt8) (le : Nat) (m : Machine) (so : LeObject) : Option (Machine × Nat) := do
  let hdrStackSize ← rdd f (le + 0xAC)
  let stackBytes := if hdrStackSize ≠ 0 then hdrStackSize else 0x10000
  let r := pmAlloc m stackBytes
  return (r.1, if r.2 ≠ 0 then lin (r.2 + stackBytes + 4294967280)
    else if 16 < so.virtSize then so.virtSize - 16 else 0)

/-- The entry and stack objects, and where in them the program starts. -/
structure LeEntry where
  entry : LeObject
  stack : LeObject
  eip : Nat
  esp : Nat
  autoObj : Nat

/-- The checks on the entry and stack objects. -/
def leEntry (f : List UInt8) (le : Nat) (m : Machine) (objects : List LeObject) :
    Option (Machine × Option LeEntry) := do
  let entryObj ← rdd f (le + 0x18)
  let entryEip ← rdd f (le + 0x1C)
  let stackObj ← rdd f (le + 0x20)
  let stackEsp ← rdd f (le + 0x24)
  let autoObj ← rdd f (le + 0x94)
  if entryObj = 0 ∨ objects.length < entryObj then return (m, none)
  let stackNo := stackObject objects stackObj autoObj
  if stackNo = 0 then return (m, none)
  let eo ← objects[entryObj - 1]?
  let so ← objects[stackNo - 1]?
  if stackObj = 0 ∨ objects.length < stackObj then
    let r ← synthStack f le m so
    return (r.1, some ⟨eo, so, entryEip, r.2, autoObj⟩)
  return (m, some ⟨eo, so, entryEip, stackEsp, autoObj⟩)

/-- The flat selectors and the tables, and the registers of the result. -/
def leLaunch (m : Machine) (objects : List LeObject) (e : LeEntry) : Machine × InitialRegs :=
  let r := flatSelectors m
  let flat := r.2 ≠ 0
  let dataSel := r.2 * 8 + 4
  let autoDs := if e.autoObj = 0 then e.stack.ldtSel
    else (objects[e.autoObj - 1]?.map LeObject.ldtSel).getD e.stack.ldtSel
  (leLaunchPmPrep r.1 e.entry.isBig,
    { cs := if flat then (r.2 + 1) * 8 + 4 else e.entry.ldtSel
      ip := 0
      ss := if flat then dataSel else e.stack.ldtSel
      sp := 0
      ax := 0
      isPm := true
      is32bit := e.entry.isBig
      pmDs := if flat then dataSel else autoDs
      pmEip := if flat then lin (e.entry.hostBase + e.eip) else e.eip
      pmEsp := if flat then lin (e.stack.hostBase + e.esp) else e.esp })

/-- The LE branch of `load_exe_at` up to the flat selectors. -/
def lePrepare (f : List UInt8) (le : Nat) (m : Machine) :
    Option (Machine × Option (List LeObject × LeEntry)) := do
  let _ ← loadLeInspect f le
  match ← leLoadObjects f le (mcbReady m) with
  | (m, objects, false) => return (releaseObjects m objects, none)
  | (m, objects, true) =>
    match leInstallDescriptors m objects with
    | none => return (m, none)
    | some (m, objects) =>
      let p ← leApplyFixups f le objects m.mem
      let r ← leEntry f le (m.setMem p.1) objects
      return (r.1, r.2.map fun e => (objects, e))

/-- The LE branch of `load_exe_at`. -/
def loadLe (f : List UInt8) (le : Nat) (m : Machine) : Option (Machine × Option InitialRegs) := do
  match ← lePrepare f le m with
  | (m, none) => return (m, none)
  | (m, some (objects, e)) =>
    let l := leLaunch m objects e
    return (l.1, some l.2)

/-! ### One lemma for each stage -/

section Stages

variable {f : List UInt8} {le : Nat} {m : Machine}

theorem leAllocate_cases {n : Nat} {r : Machine × Nat × Nat} (h : leAllocate m n = some r) :
    ∃ a, leAllocateLow m n = some a ∧ ((a.2 ≠ 0 ∧ r = (a.1, a.2, a.2 * 16)) ∨
      (a.2 = 0 ∧ r = ((pmAlloc a.1 (if n ≠ 0 then n else 16)).1, 0,
        (pmAlloc a.1 (if n ≠ 0 then n else 16)).2))) := by
  unfold leAllocate at h
  split at h
  · cases h
  · rename_i a seg hlow
    refine ⟨(a, seg), hlow, ?_⟩
    split at h
    · rename_i hseg
      exact Or.inl ⟨hseg, (Option.some.inj h).symm⟩
    · rename_i hseg
      exact Or.inr ⟨not_not.mp hseg, (Option.some.inj h).symm⟩

theorem leLoadObject_cases {h : LeHeader} {i : Nat} {r : Machine × Option LeObject}
    (hr : leLoadObject f le h i m = some r) :
    (r = (m, none) ∧ f.length < h.entryOff le i + 24) ∨
      ∃ o a, readObject f (h.entryOff le i) = some o ∧ leAllocate m o.virtSize = some a ∧
        ((a.2.2 = 0 ∧ r = (a.1, none)) ∨ (a.2.2 ≠ 0 ∧ ∃ o' mem,
          o' = { o with hostSeg := a.2.1, hostBase := a.2.2 } ∧
          copyPages f le h o' o'.pageCount 0 (fillLin a.1.mem o'.hostBase o'.virtSize 0) = some mem ∧
          r = (a.1.setMem mem, some o'))) := by
  unfold leLoadObject at hr
  split at hr
  · rename_i hshort
    exact Or.inl ⟨(Option.some.inj hr).symm, hshort⟩
  · right
    simp only [Option.bind_eq_bind, Option.bind_eq_some_iff] at hr
    obtain ⟨o, ho, a, ha, hr⟩ := hr
    refine ⟨o, a, ho, ha, ?_⟩
    split at hr
    · rename_i hzero
      exact Or.inl ⟨hzero, (Option.some.inj hr).symm⟩
    · rename_i hbase
      obtain ⟨mem, hmem, hr⟩ := Option.bind_eq_some_iff.mp hr
      exact Or.inr ⟨hbase, _, mem, rfl, hmem, (Option.some.inj hr).symm⟩

/-- What holds of the machine and the objects loaded so far, and is kept by loading one more, holds at
    the end; when an object fails, it holds of the state it failed in. -/
theorem leLoadFrom_induct {h : LeHeader} {P : Machine → List LeObject → Prop}
    (hstep : ∀ m objects i m' o, P m objects → leLoadObject f le h i m = some (m', some o) →
      P m' (objects ++ [o])) :
    ∀ {n i : Nat} {m : Machine} {objects : List LeObject} {r : Machine × List LeObject × Bool},
      leLoadFrom f le h n i m objects = some r → P m objects →
      (r.2.2 = true ∧ P r.1 r.2.1) ∨ (r.2.2 = false ∧ ∃ m' j, P m' r.2.1 ∧
        leLoadObject f le h j m' = some (r.1, none)) := by
  intro n
  induction n with
  | zero =>
    intro i m objects r hr hP
    cases hr
    exact Or.inl ⟨rfl, hP⟩
  | succ n ih =>
    intro i m objects r hr hP
    simp only [leLoadFrom, Option.bind_eq_bind, Option.bind_eq_some_iff] at hr
    obtain ⟨⟨m', o⟩, ho, hr⟩ := hr
    cases o with
    | none =>
      cases hr
      exact Or.inr ⟨rfl, m, i, hP, ho⟩
    | some o => exact ih hr (hstep m objects i m' o hP ho)

theorem leLoadObjects_induct {P : Machine → List LeObject → Prop} {r : Machine × List LeObject × Bool}
    (hr : leLoadObjects f le m = some r) (h₀ : P m [])
    (hstep : ∀ h m objects i m' o, readHeader f le = some h → P m objects →
      leLoadObject f le h i m = some (m', some o) → P m' (objects ++ [o])) :
    (r.2.2 = true ∧ P r.1 r.2.1) ∨ (r.2.2 = false ∧ ∃ h m' j, readHeader f le = some h ∧ P m' r.2.1 ∧
      leLoadObject f le h j m' = some (r.1, none)) := by
  unfold leLoadObjects at hr
  simp only [Option.bind_eq_bind, Option.bind_eq_some_iff] at hr
  obtain ⟨h, hh, hr⟩ := hr
  rcases leLoadFrom_induct (fun m objects i m' o => hstep h m objects i m' o hh) hr h₀ with
    hok | ⟨hfail, m', j, hP, hj⟩
  · exact Or.inl hok
  · exact Or.inr ⟨hfail, h, m', j, hh, hP, hj⟩

theorem leEntry_cases {objects : List LeObject} {r : Machine × Option LeEntry}
    (hr : leEntry f le m objects = some r) :
    r = (m, none) ∨ ∃ e, r.2 = some e ∧ (r.1 = m ∨ ∃ n, r.1 = (pmAlloc m n).1) ∧
      e.entry ∈ objects ∧ e.stack ∈ objects := by
  unfold leEntry at hr
  simp only [Option.bind_eq_bind, Option.bind_eq_some_iff] at hr
  obtain ⟨entryObj, -, entryEip, -, stackObj, -, stackEsp, -, autoObj, -, hr⟩ := hr
  split at hr
  · exact Or.inl (Option.some.inj hr).symm
  · split at hr
    · exact Or.inl (Option.some.inj hr).symm
    · simp only [Option.bind_eq_some_iff] at hr
      obtain ⟨eo, heo, so, hso, hr⟩ := hr
      right
      split at hr
      · obtain ⟨a, ha, hr⟩ := Option.bind_eq_some_iff.mp hr
        simp only [synthStack, Option.bind_eq_bind, Option.bind_eq_some_iff] at ha
        obtain ⟨size, -, ha⟩ := ha
        cases ha
        cases hr
        exact ⟨_, rfl, Or.inr ⟨_, rfl⟩, List.mem_of_getElem? heo, List.mem_of_getElem? hso⟩
      · cases hr
        exact ⟨_, rfl, Or.inl rfl, List.mem_of_getElem? heo, List.mem_of_getElem? hso⟩

/-- The exits of the LE branch: an object failed and the objects are released; no descriptors; or the
    checks of `leEntry`, on the patched image. -/
theorem lePrepare_cases {r : Machine × Option (List LeObject × LeEntry)}
    (hr : lePrepare f le m = some r) :
    ∃ a objects ok, leLoadObjects f le (mcbReady m) = some (a, objects, ok) ∧
      ((ok = false ∧ r = (releaseObjects a objects, none)) ∨
        (ok = true ∧ ((leInstallDescriptors a objects = none ∧ r = (a, none)) ∨
          ∃ d objects' p q, leInstallDescriptors a objects = some (d, objects') ∧
            leApplyFixups f le objects' d.mem = some p ∧ leEntry f le (d.setMem p.1) objects' = some q ∧
            r = (q.1, q.2.map fun e => (objects', e))))) := by
  unfold lePrepare at hr
  simp only [Option.bind_eq_bind, Option.bind_eq_some_iff] at hr
  obtain ⟨-, -, ⟨a, objects, ok⟩, hload, hr⟩ := hr
  refine ⟨a, objects, ok, hload, ?_⟩
  cases ok with
  | false => exact Or.inl ⟨rfl, (Option.some.inj hr).symm⟩
  | true =>
    refine Or.inr ⟨rfl, ?_⟩
    dsimp only at hr
    split at hr
    · rename_i hnone
      exact Or.inl ⟨hnone, (Option.some.inj hr).symm⟩
    · rename_i d objects' hinstall
      obtain ⟨p, hp, hr⟩ := Option.bind_eq_some_iff.mp hr
      obtain ⟨q, hq, hr⟩ := Option.bind_eq_some_iff.mp hr
      exact Or.inr ⟨d, objects', p, q, hinstall, hp, hq, (Option.some.inj hr).symm⟩

theorem loadLe_cases {r : Machine × Option InitialRegs} (hr : loadLe f le m = some r) :
    ∃ q, lePrepare f le m = some q ∧ ((q.2 = none ∧ r = (q.1, none)) ∨
      ∃ objects e, q.2 = some (objects, e) ∧
        r = ((leLaunch q.1 objects e).1, some (leLaunch q.1 objects e).2)) := by
  unfold loadLe at hr
  obtain ⟨⟨q, o⟩, hq, hr⟩ := Option.bind_eq_some_iff.mp hr
  refine ⟨(q, o), hq, ?_⟩
  cases o with
  | none => exact Or.inl ⟨rfl, (Option.some.inj hr).symm⟩
  | some o => exact Or.inr ⟨o.1, o.2, rfl, (Option.some.inj hr).symm⟩

end Stages

end Le

end Dosiz
