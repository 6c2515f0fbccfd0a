/-
  Dosiz/Loader.lean
  =================
  **Loading a program image** (`load_com_at`, `load_exe_at`, `load_program_at` of
  `bridge.cc`).

  A COM image is copied as it is behind its PSP, an MZ image without its header and with
  its relocations applied; an MZ file with a linear executable in it goes to `loadLe`.
  As there, `none` is an access past the end of the file buffer.
-/
import Dosiz.Le
import Dosiz.ServiceFrame

namespace Dosiz

open ByteMemory Machine

/-! ### The host's files -/

/-- The host: paths (`resolve_path`), file contents (`none` where there is no file), the switches
    of the loader. -/
structure Host where
  resolvePath : List Nat → List Nat
  contents : List Nat → Option (List UInt8)
  bypassExtender : Bool
  leAsMz : Bool

/-! ### Images -/

def COM_ENTRY_OFFSET : Nat := 0x100
def MAX_COM_SIZE : Nat := 0xFF00

/-- `n` bytes from `off` on. -/
def readBytes (f : List UInt8) : Nat → Nat → Option (List Nat)
  | _, 0 => some []
  | off, n + 1 => do
    let b ← byteAt f off
    let bs ← readBytes f (off + 1) n
    return b :: bs

/-- `load_com_at` -/
def loadComAt (f : List UInt8) (m : Machine) (psp : Nat) : Machine × Option InitialRegs :=
  if f = [] ∨ MAX_COM_SIZE < f.length then (m, none)
  else
    (m.setMem (storeBytes m.mem (psp * 16 + COM_ENTRY_OFFSET) (f.map UInt8.toNat)),
      some { cs := psp, ip := COM_ENTRY_OFFSET, ss := psp, sp := 0xFFFE, ax := 0 })

/-- The signatures of DOS extenders: `DOS/4G`, `DOS/16M`, `PMODE/W`. -/
def extenderNames : List (List UInt8) :=
  [[0x44, 0x4F, 0x53, 0x2F, 0x34, 0x47], [0x44, 0x4F, 0x53, 0x2F, 0x31, 0x36, 0x4D],
    [0x50, 0x4D, 0x4F, 0x44, 0x45, 0x2F, 0x57]]

/-- `extender_detected`: the MZ stub holds an extender's signature. -/
def extenderDetected (host : Host) (f : List UInt8) : Option Bool := do
  if f.length < 0x40 then return false
  let lfanew ← rdd f 0x3C
  return 0x40 < lfanew && lfanew ≤ f.length && !host.bypassExtender &&
    extenderNames.any fun s => (f.take (min lfanew 4096)).tails.any s.isPrefixOf

/-- Where the header of the linear executable is that `load_exe_at` looks at.  `le_off + 2` is a
    `uint32_t`. -/
def linearAt (host : Host) (f : List UInt8) (extender : Bool) : Option (Option Nat) := do
  if extender || f.length < 0x40 || host.leAsMz then return none
  let le ← rdd f 0x3C
  if le = 0 ∨ f.length < lin (le + 2) then return none
  let c₀ ← byteAt f le
  if c₀ ≠ 0x4C then return none
  let c₁ ← byteAt f (lin (le + 1))
  return if c₁ = 0x45 ∨ c₁ = 0x58 then some le else none

/-- The relocations from number `i` on, `n` of them; `false` when one lies past the end of the
    file. -/
def relocate (f : List UInt8) (loadSeg tableOff : Nat) : Nat → Nat → Mem → Option (Mem × Bool)
  | 0, _, mem => some (mem, true)
  | n + 1, i, mem => do
    let entry := tableOff + i * 4
    if f.length ≤ entry + 3 then return (mem, false)
    let rOff ← rdw f entry
    let rSeg ← rdw f (entry + 2)
    let target := (loadSeg + rSeg) * 16 + rOff
    relocate f loadSeg tableOff n (i + 1) (writew mem target (readw mem target + loadSeg))

/-- The MZ header fields the loader reads. -/
structure MzHeader where
  lastPage : Nat
  pages : Nat
  relocCount : Nat
  headerParas : Nat
  ss : Nat
  sp : Nat
  ip : Nat
  cs : Nat
  relocOff : Nat

def readMzHeader (f : List UInt8) : Option MzHeader := do
  let lastPage ← rdw f 0x02
  let pages ← rdw f 0x04
  let relocCount ← rdw f 0x06
  let headerParas ← rdw f 0x08
  let ss ← rdw f 0x0E
  let sp ← rdw f 0x10
  let ip ← rdw f 0x14
  let cs ← rdw f 0x16
  let relocOff ← rdw f 0x18
  return ⟨lastPage, pages, relocCount, headerParas, ss, sp, ip, cs, relocOff⟩

/-- `total_image_bytes`, a `size_t`. -/
def MzHeader.totalBytes (h : MzHeader) : Nat :=
  if h.lastPage = 0 then h.pages * 512 else (h.pages * 512 + h.lastPage + (2 ^ 64 - 512)) % 2 ^ 64

/-- The MZ path of `load_exe_at`. -/
def loadMz (f : List UInt8) (m : Machine) (psp : Nat) : Option (Machine × Option InitialRegs) := do
  let loadSeg := (psp + 0x10) % 65536
  let h ← readMzHeader f
  let header := h.headerParas * 16
  if h.totalBytes < header ∨ f.length < h.totalBytes then return (m, none)
  let image ← readBytes f header (h.totalBytes - header)
  let r ← relocate f loadSeg h.relocOff h.relocCount 0 (storeBytes m.mem (loadSeg * 16) image)
  return (m.setMem r.1, if r.2 then
    some { cs := (loadSeg + h.cs) % 65536, ip := h.ip, ss := (loadSeg + h.ss) % 65536, sp := h.sp, ax := 0 }
    else none)

/-- The two letters `MZ`. -/
def hasMz (f : List UInt8) : Bool := f.take 2 = [0x4D, 0x5A]

/-- `s_extender_bound = true;` -/
def bindExtender (m : Machine) : Machine := { m with extenderBound := true }

/-- `load_exe_at` -/
def loadExeAt (host : Host) (f : List UInt8) (m : Machine) (psp : Nat) :
    Option (Machine × Option InitialRegs) := do
  if f.length < 0x1C ∨ !(hasMz f || f.take 2 = [0x5A, 0x4D]) then return (m, none)
  let extender ← extenderDetected host f
  let m := if extender then bindExtender m else m
  match ← linearAt host f extender with
  | some le => Le.loadLe f le m
  | none => loadMz f m psp

/-- `iends_with(path, ".exe")` -/
def isExePath (path : List Nat) : Bool :=
  let tail := path.drop (path.length - 4)
  tail.map (fun c => if 0x41 ≤ c ∧ c ≤ 0x5A then c + 32 else c) = [0x2E, 0x65, 0x78, 0x65]

/-- `load_program_at`: by content first, then by extension. -/
def loadProgramAt (host : Host) (path : List Nat) (m : Machine) (psp : Nat) :
    Option (Machine × Option InitialRegs) :=
  let f := (host.contents path).getD []
  if hasMz f || isExePath path then loadExeAt host f m psp else some (loadComAt f m psp)

/-! ### What loading leaves alone -/

/-- Loading changes guest memory, the allocators' state, the descriptor bitmap, the extender flag and
    the table registers at most. -/
structure LoaderFrame (m m' : Machine) : Prop where
  eq : m' = { m with
    mem := m'.mem
    mcbInitialised := m'.mcbInitialised
    pmBusy := m'.pmBusy
    pmInitialised := m'.pmInitialised
    pmEnd := m'.pmEnd
    ldtInUse := m'.ldtInUse
    extenderBound := m'.extenderBound
    cpu := { m.cpu with
      gdtLimit := m'.cpu.gdtLimit
      gdtBase := m'.cpu.gdtBase
      idtLimit := m'.cpu.idtLimit
      idtBase := m'.cpu.idtBase } }

theorem LoaderFrame.refl (m : Machine) : LoaderFrame m m := ⟨rfl⟩

theorem LoaderFrame.trans {m m' m'' : Machine} (h₁ : LoaderFrame m m') (h₂ : LoaderFrame m' m'') :
    LoaderFrame m m'' := by
  refine ⟨?_⟩
  rw [h₂.eq, h₁.eq]

theorem LoaderFrame.serviceFrame {m m' : Machine} (h : LoaderFrame m m') : ServiceFrame m m' := by
  rw [h.eq]
  rfl

theorem LoaderFrame.cr0 {m m' : Machine} (h : LoaderFrame m m') : m'.cpu.cr0 = m.cpu.cr0 := by
  rw [h.eq]

theorem LoaderFrame.pmode {m m' : Machine} (h : LoaderFrame m m') : m'.cpu.pmode = m.cpu.pmode := by
  rw [h.eq]

/-- What loading changes besides the extender flag. -/
structure ImageFrame (m m' : Machine) : Prop where
  eq : m' = { m with
    mem := m'.mem
    mcbInitialised := m'.mcbInitialised
    pmBusy := m'.pmBusy
    pmInitialised := m'.pmInitialised
    pmEnd := m'.pmEnd
    ldtInUse := m'.ldtInUse
    cpu := { m.cpu with
      gdtLimit := m'.cpu.gdtLimit
      gdtBase := m'.cpu.gdtBase
      idtLimit := m'.cpu.idtLimit
      idtBase := m'.cpu.idtBase } }

theorem ImageFrame.refl (m : Machine) : ImageFrame m m := ⟨rfl⟩

theorem ImageFrame.trans {m m' m'' : Machine} (h₁ : ImageFrame m m') (h₂ : ImageFrame m' m'') :
    ImageFrame m m'' := by
  refine ⟨?_⟩
  rw [h₂.eq, h₁.eq]

theorem ImageFrame.loader {m m' : Machine} (h : ImageFrame m m') : LoaderFrame m m' := by
  refine ⟨?_⟩
  rw [h.eq]

theorem ImageFrame.extender {m m' : Machine} (h : ImageFrame m m') :
    m'.extenderBound = m.extenderBound := by
  rw [h.eq]

theorem imageFrame_setMem (m : Machine) (mem : Mem) : ImageFrame m (m.setMem mem) := ⟨rfl⟩

theorem imageFrame_ldtSet (m : Machine) (idx : Nat) (v : Bool) : ImageFrame m (ldtSet m idx v) := ⟨rfl⟩

theorem imageFrame_mcbReady (m : Machine) : ImageFrame m (Mcb.mcbReady m) := by
  unfold Mcb.mcbReady
  split
  · exact ImageFrame.refl m
  · exact ⟨rfl⟩

theorem imageFrame_mcbAllocate {m : Machine} {need : Nat} {r : Machine × Nat × Nat}
    (h : Mcb.mcbAllocate m need = some r) : ImageFrame m r.1 := by
  have hready := imageFrame_mcbReady m
  unfold Mcb.mcbAllocate at h
  dsimp only at h
  split at h
  · cases h
  · cases h
    exact hready.trans (imageFrame_setMem _ _)

theorem imageFrame_mcbFree (m : Machine) (s : Nat) : ImageFrame m (Mcb.mcbFree m s).1 := by
  unfold Mcb.mcbFree
  split
  · exact imageFrame_setMem m _
  · exact ImageFrame.refl m

theorem imageFrame_pmAlloc (m : Machine) (n : Nat) : ImageFrame m (PmArena.pmAlloc m n).1 := by
  have hinit : ImageFrame m (PmArena.pmInit m) := by
    unfold PmArena.pmInit
    split
    · exact ImageFrame.refl m
    · exact ⟨rfl⟩
  unfold PmArena.pmAlloc
  dsimp only
  generalize PmArena.pmInit m = q at hinit
  split_ifs
  · exact hinit
  · exact hinit
  · exact hinit.trans ⟨rfl⟩
  · exact hinit.trans ⟨rfl⟩

theorem imageFrame_pmFree (m : Machine) (n : Nat) : ImageFrame m (PmArena.pmFree m n).1 := ⟨rfl⟩

section LinearExecutables

variable {f : List UInt8} {le : Nat} {m : Machine}

theorem imageFrame_leAllocate {n : Nat} {r : Machine × Nat × Nat} (h : Le.leAllocate m n = some r) :
    ImageFrame m r.1 := by
  obtain ⟨a, ha, hr⟩ := Le.leAllocate_cases h
  have hlow : ImageFrame m a.1 := by
    unfold Le.leAllocateLow at ha
    dsimp only at ha
    generalize (if lin (n + 15) / 16 = 0 then 1 else lin (n + 15) / 16) = need at ha
    split at ha
    · obtain ⟨b, hb, rfl⟩ := Option.map_eq_some_iff.mp ha
      exact imageFrame_mcbAllocate hb
    · cases ha
      exact ImageFrame.refl m
  rcases hr with ⟨-, rfl⟩ | ⟨-, rfl⟩
  · exact hlow
  · exact hlow.trans (imageFrame_pmAlloc _ _)

theorem imageFrame_leLoadObject {i : Nat} {h : Le.LeHeader} {r : Machine × Option Le.LeObject}
    (hr : Le.leLoadObject f le h i m = some r) : ImageFrame m r.1 := by
  rcases Le.leLoadObject_cases hr with ⟨rfl, -⟩ | ⟨o, a, -, ha, ⟨-, rfl⟩ | ⟨-, o', mem, -, -, rfl⟩⟩
  · exact ImageFrame.refl m
  · exact imageFrame_leAllocate ha
  · exact (imageFrame_leAllocate ha).trans (imageFrame_setMem _ _)

theorem imageFrame_leLoadObjects {r : Machine × List Le.LeObject × Bool}
    (hr : Le.leLoadObjects f le m = some r) : ImageFrame m r.1 := by
  rcases Le.leLoadObjects_induct (P := fun m' _ => ImageFrame m m') hr (ImageFrame.refl m)
    (fun _ _ _ _ _ _ _ hP hstep => hP.trans (imageFrame_leLoadObject hstep)) with
    ⟨-, h⟩ | ⟨-, _, m', _, -, h, hfail⟩
  · exact h
  · exact h.trans (imageFrame_leLoadObject hfail)

theorem imageFrame_releaseObjects (m : Machine) (objects : List Le.LeObject) :
    ImageFrame m (Le.releaseObjects m objects) := by
  unfold Le.releaseObjects
  induction objects generalizing m with
  | nil => exact ImageFrame.refl m
  | cons o objects ih =>
    refine ImageFrame.trans ?_ (ih _)
    dsimp only
    split_ifs
    · exact imageFrame_mcbFree _ _
    · exact imageFrame_pmFree _ _
    · exact ImageFrame.refl m

theorem imageFrame_installDescriptors (m : Machine) (objects : List Le.LeObject) (idx : Nat) :
    ImageFrame m (Le.installDescriptors idx objects m).1 := by
  induction objects generalizing m idx with
  | nil => exact ImageFrame.refl m
  | cons o objects ih =>
    exact ((imageFrame_setMem m _).trans (imageFrame_ldtSet _ _ _)).trans (ih _ _)

theorem imageFrame_leInstallDescriptors {objects : List Le.LeObject} {r : Machine × List Le.LeObject}
    (hr : Le.leInstallDescriptors m objects = some r) : ImageFrame m r.1 := by
  unfold Le.leInstallDescriptors at hr
  dsimp only at hr
  split at hr
  · cases hr
  · cases hr
    exact imageFrame_installDescriptors _ _ _

theorem imageFrame_flatSelectors (m : Machine) : ImageFrame m (Le.flatSelectors m).1 := by
  unfold Le.flatSelectors
  dsimp only
  split
  · exact ImageFrame.refl m
  · exact ⟨rfl⟩

theorem imageFrame_leLaunchPmPrep (m : Machine) (bits32 : Bool) :
    ImageFrame m (Le.leLaunchPmPrep m bits32) := by
  have hsetup : ∀ cs ds ss es, ImageFrame m (pmSetupGdtAndIdt m bits32 cs ds ss es) := fun _ _ _ _ => ⟨rfl⟩
  unfold Le.leLaunchPmPrep
  have h := hsetup (m.segVal .cs) (m.segVal .ds) (m.segVal .ss) (m.segVal .es)
  generalize pmSetupGdtAndIdt m bits32 (m.segVal .cs) (m.segVal .ds) (m.segVal .ss) (m.segVal .es) = q at h
  dsimp only
  generalize (if bits32 = true then q.stubs.leExcCb32 else q.stubs.leExcCb16) = cb
  split
  · exact h
  · exact h.trans (imageFrame_setMem _ _)

theorem imageFrame_leEntry {objects : List Le.LeObject} {r : Machine × Option Le.LeEntry}
    (hr : Le.leEntry f le m objects = some r) : ImageFrame m r.1 := by
  rcases Le.leEntry_cases hr with rfl | ⟨e, -, h | ⟨n, h⟩, -, -⟩
  · exact ImageFrame.refl m
  · rw [h]
    exact ImageFrame.refl m
  · rw [h]
    exact imageFrame_pmAlloc m n

theorem imageFrame_lePrepare {r : Machine × Option (List Le.LeObject × Le.LeEntry)}
    (hr : Le.lePrepare f le m = some r) : ImageFrame m r.1 := by
  obtain ⟨a, objects, ok, hload, hcases⟩ := Le.lePrepare_cases hr
  have ha : ImageFrame m a := (imageFrame_mcbReady m).trans (imageFrame_leLoadObjects hload)
  rcases hcases with ⟨-, rfl⟩ | ⟨-, ⟨-, rfl⟩ | ⟨d, objects', p, q, hinstall, -, hentry, rfl⟩⟩
  · exact ha.trans (imageFrame_releaseObjects _ _)
  · exact ha
  · exact ((ha.trans (imageFrame_leInstallDescriptors hinstall)).trans
      (imageFrame_setMem _ _)).trans (imageFrame_leEntry hentry)

theorem imageFrame_leLaunch (m : Machine) (objects : List Le.LeObject) (e : Le.LeEntry) :
    ImageFrame m (Le.leLaunch m objects e).1 :=
  (imageFrame_flatSelectors m).trans (imageFrame_leLaunchPmPrep _ _)

theorem imageFrame_loadLe {r : Machine × Option InitialRegs} (hr : Le.loadLe f le m = some r) :
    ImageFrame m r.1 := by
  obtain ⟨q, hq, ⟨-, rfl⟩ | ⟨objects, e, -, rfl⟩⟩ := Le.loadLe_cases hr
  · exact imageFrame_lePrepare hq
  · exact (imageFrame_lePrepare hq).trans (imageFrame_leLaunch q.1 objects e)

end LinearExecutables

theorem imageFrame_loadMz {f : List UInt8} {m : Machine} {psp : Nat} {r : Machine × Option InitialRegs}
    (hr : loadMz f m psp = some r) : ImageFrame m r.1 := by
  unfold loadMz at hr
  simp only [Option.bind_eq_bind, Option.bind_eq_some_iff] at hr
  obtain ⟨h, -, hr⟩ := hr
  split at hr
  · cases hr
    exact ImageFrame.refl m
  · simp only [Option.bind_eq_some_iff] at hr
    obtain ⟨image, -, p, -, hr⟩ := hr
    cases hr
    exact imageFrame_setMem _ _

theorem loaderFrame_loadExeAt {host : Host} {f : List UInt8} {m : Machine} {psp : Nat}
    {r : Machine × Option InitialRegs} (hr : loadExeAt host f m psp = some r) : LoaderFrame m r.1 := by
  unfold loadExeAt at hr
  split at hr
  · cases hr
    exact LoaderFrame.refl m
  · simp only [Option.bind_eq_bind, Option.bind_eq_some_iff] at hr
    obtain ⟨extender, -, linear, -, hr⟩ := hr
    have hbind : LoaderFrame m (if extender then bindExtender m else m) := by
      cases extender
      · exact LoaderFrame.refl m
      · exact ⟨rfl⟩
    cases linear with
    | none => exact hbind.trans (imageFrame_loadMz hr).loader
    | some le => exact hbind.trans (imageFrame_loadLe hr).loader

/-- Loading a program stays in the loader's frame. -/
theorem loaderFrame_loadProgramAt {host : Host} {path : List Nat} {m : Machine} {psp : Nat}
    {r : Machine × Option InitialRegs} (hr : loadProgramAt host path m psp = some r) :
    LoaderFrame m r.1 := by
  unfold loadProgramAt at hr
  dsimp only at hr
  split at hr
  · exact loaderFrame_loadExeAt hr
  · cases hr
    unfold loadComAt
    split
    · exact LoaderFrame.refl m
    · exact (imageFrame_setMem _ _).loader

end Dosiz
