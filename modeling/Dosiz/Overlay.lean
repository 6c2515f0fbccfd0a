/-
  Dosiz/Overlay.lean
  ==================
  **Overlays** (INT 21h AH=4B AL=3 of `bridge.cc`).

  The caller names a load segment and a relocation factor; the handler gives the segment to
  the program loader and drops the factor.  The loader leaves room for a PSP, and relocates
  by its own segment.  `overlay_iff`: an overlay that can be loaded comes to stand where it
  should only if there is nothing to load.
-/
import Dosiz.FailedLoads
import Dosiz.MzImage
import Mathlib.Data.Finset.Max

namespace Dosiz

open ByteMemory Machine ChildEnv

/-! ### The call -/

/-- The load of AL=3: the factor `reloc` is not used. -/
def loadOverlay (host : Host) (path : List Nat) (m : Machine) (loadSeg _reloc : Nat) :
    Option (Machine × Option InitialRegs) :=
  loadProgramAt host path m loadSeg

/-- AH=4B AL=3: load overlay. -/
def int21_4B03 (host : Host) (m : Machine) : Reply :=
  let hostPath := host.resolvePath (dosPath m)
  if (host.contents hostPath).isNone then some (failWith m 2)
  else
    let pb := lin (m.segPhys .es + m.bx)
    match loadOverlay host hostPath m (readw m.mem pb) (readw m.mem (lin (pb + 2))) with
    | none => none
    | some (m', none) => some (failWith m' 2)
    | some (m', some _) => some (m', false)

/-- A call that succeeds is a load with the words of the parameter block. -/
theorem int21_4B03_loads {host : Host} {m m' : Machine} (h : int21_4B03 host m = some (m', false)) :
    ∃ regs, loadOverlay host (host.resolvePath (dosPath m)) m (readw m.mem (lin (m.segPhys .es + m.bx)))
      (readw m.mem (lin (lin (m.segPhys .es + m.bx) + 2))) = some (m', some regs) := by
  unfold int21_4B03 at h
  dsimp only at h
  split at h
  · cases h
  · generalize loadOverlay host _ m _ _ = r at h ⊢
    match r, h with
    | some (q, some regs), h =>
      cases h
      exact ⟨regs, rfl⟩

/-! ### Overlay files -/

/-- A COM or MZ file, with its image and the words its relocation table names. -/
inductive OverlayFile (path : List Nat) (f : List UInt8) : List Nat → List Nat → Prop
  | com (hcom : (hasMz f || isExePath path) = false) : OverlayFile path f (f.map UInt8.toNat) []
  | mz {h : MzHeader} (hmz : (hasMz f || isExePath path) = true) (hh : readMzHeader f = some h) :
    OverlayFile path f (fileImage f h) (mzTargets f h)

/-- Byte `i` is in one of the words at `ts`. -/
def TargetByte (ts : List Nat) (i : Nat) : Prop := ∃ t ∈ ts, i = t ∨ i = t + 1

/-- The bytes of the words at `ts`, from `base` on. -/
def wordBytes (base : Nat) (ts : List Nat) : Set Nat := {a | ∃ i, TargetByte ts i ∧ a = base + i}

/-- The image stands at the load segment, the factor is added to the words that the table names; other memory and
    the state of the process are as before. -/
structure OverlayPlaced (bs ts : List Nat) (loadSeg reloc : Nat) (m m' : Machine) : Prop where
  image : ∀ i < bs.length, ¬ TargetByte ts i → readb m'.mem (loadSeg * 16 + i) = bs.getD i 0
  words : ∀ t ∈ ts, readw m'.mem (loadSeg * 16 + t) =
    (readw (storeBytes m.mem (loadSeg * 16) bs) (loadSeg * 16 + t) + reloc) % 65536
  frame : AgreesOff (Set.Ico (loadSeg * 16) (loadSeg * 16 + bs.length) ∪ wordBytes (loadSeg * 16) ts) m.mem m'.mem
  process : m' = { m with mem := m'.mem }

/-- Every load of the file that succeeds places it. -/
def OverlayLoads (host : Host) (path : List Nat) (bs ts : List Nat) (loadSeg reloc : Nat) : Prop :=
  ∀ m m' regs, loadOverlay host path m loadSeg reloc = some (m', some regs) →
    OverlayPlaced bs ts loadSeg reloc m m'

/-- Adding `k` to the words at `ts`, `16 k` further on, changes no memory. -/
def Inert (k : Nat) (ts : List Nat) : Prop := ∀ mem, patchWords (k * 16) k ts mem = mem

/-- The loader takes the file for an MZ file that brings no extender; it has no image, and it names no words, or
    neither the factor nor the loader's segment changes them. -/
structure NothingToLoad (host : Host) (f : List UInt8) (bs ts : List Nat) (loadSeg reloc : Nat) : Prop where
  stub : extenderDetected host f = some false
  plain : linearAt host f false = some none
  image : bs = []
  words : ts = [] ∨ reloc % 65536 = 0 ∧ Inert ((loadSeg + 0x10) % 65536) ts

/-! ### Words and where they are -/

section Words

variable {ts : List Nat} {base base' k : Nat}

theorem inert_zero (ts : List Nat) : Inert 0 ts := by
  intro mem
  unfold patchWords
  induction ts with
  | nil => rfl
  | cons t ts ih =>
    have hsame : writew mem (0 * 16 + t) (readw mem (0 * 16 + t) + 0) = mem := by
      funext x
      simp only [writew, writeb, readw, readb]
      have h₀ := (mem (0 * 16 + t)).toNat_lt
      have h₁ := (mem (0 * 16 + t + 1)).toNat_lt
      split_ifs with hx hx'
      · rw [hx]
        exact UInt8.toNat_inj.mp (by rw [UInt8.toNat_ofNat']; omega)
      · rw [hx']
        exact UInt8.toNat_inj.mp (by rw [UInt8.toNat_ofNat']; omega)
      · rfl
    rw [List.foldl_cons, hsame]
    exact ih

/-- Two memories with the same word. -/
theorem bytes_of_readw {m m' : Mem} {a : Nat} (h : readw m' a = readw m a) : m' a = m a ∧ m' (a + 1) = m (a + 1) := by
  have h₀ := readb_lt m a
  have h₁ := readb_lt m' a
  simp only [readw] at h
  exact ⟨UInt8.toNat_inj.mp (show readb m' a = readb m a by omega),
    UInt8.toNat_inj.mp (show readb m' (a + 1) = readb m (a + 1) by omega)⟩

theorem patchWords_off (base k : Nat) : ∀ (ts : List Nat) (mem : Mem),
    AgreesOff (wordBytes base ts) mem (patchWords base k ts mem)
  | [], _ => AgreesOff.refl _ _
  | t :: ts, mem => by
    have hword : AgreesOff (wordBytes base (t :: ts)) mem (writew mem (base + t) (readw mem (base + t) + k)) := by
      refine (writew_off _ _ _).mono fun x hx => ?_
      obtain ⟨h₁, h₂⟩ := hx
      exact ⟨x - base, ⟨t, List.mem_cons_self, by omega⟩, by omega⟩
    refine hword.trans ((patchWords_off base k ts _).mono ?_)
    rintro x ⟨i, ⟨u, hu, hi⟩, hx⟩
    exact ⟨i, ⟨u, List.mem_cons_of_mem t hu, hi⟩, hx⟩

theorem wordBytes_above {x : Nat} (h : x ∈ wordBytes base ts) : base ≤ x := by
  obtain ⟨i, -, rfl⟩ := h
  exact Nat.le_add_right base i

/-- The lowest word of a table is below every word of the same table further up, and the highest is above those
    further down. -/
theorem word_apart (hne : ts ≠ []) (hbase : base + 2 ≤ base' ∨ base' + 2 ≤ base) :
    ∃ t ∈ ts, base + t ∉ wordBytes base' ts ∧ base + t + 1 ∉ wordBytes base' ts := by
  obtain ⟨u, hu⟩ := List.exists_mem_of_ne_nil ts hne
  have hsome : ts.toFinset.Nonempty := ⟨u, List.mem_toFinset.mpr hu⟩
  rcases hbase with hup | hdown
  · obtain ⟨t, ht, hmin⟩ := Finset.exists_min_image ts.toFinset (fun t => t) hsome
    have hlow : ∀ {x}, x ∈ wordBytes base' ts → base' + t ≤ x := by
      rintro x ⟨i, ⟨v, hv, hi⟩, rfl⟩
      have hle := hmin v (List.mem_toFinset.mpr hv)
      omega
    refine ⟨t, List.mem_toFinset.mp ht, fun h => ?_, fun h => ?_⟩
    · have := hlow h
      omega
    · have := hlow h
      omega
  · obtain ⟨t, ht, hmax⟩ := Finset.exists_max_image ts.toFinset (fun t => t) hsome
    have hhigh : ∀ {x}, x ∈ wordBytes base' ts → x ≤ base' + t + 1 := by
      rintro x ⟨i, ⟨v, hv, hi⟩, rfl⟩
      have hle := hmax v (List.mem_toFinset.mpr hv)
      omega
    refine ⟨t, List.mem_toFinset.mp ht, fun h => ?_, fun h => ?_⟩
    · have := hhigh h
      omega
    · have := hhigh h
      omega

end Words

/-! ### Where the loader puts it -/

/-- The file is stored at `base` whatever memory holds, and the rest of the work is done from there up. -/
structure StoresAt (host : Host) (path : List Nat) (loadSeg reloc base : Nat) (bs : List Nat) : Prop where
  run : ∃ (g : Mem → Mem) (flag : Machine → Bool), (∀ mem, AgreesOff (Set.Ici base) mem (g mem)) ∧
      ∀ m, ∃ regs, loadOverlay host path m loadSeg reloc =
        some ({ m with mem := g (storeBytes m.mem base bs), extenderBound := flag m }, some regs)

section Files

variable {host : Host} {path : List Nat} {f : List UInt8} {bs ts : List Nat} {loadSeg reloc : Nat}

theorem base_apart (loadSeg : Nat) : loadSeg * 16 + 2 ≤ (loadSeg + 0x10) % 65536 * 16 ∨
    (loadSeg + 0x10) % 65536 * 16 + 2 ≤ loadSeg * 16 := by
  omega

theorem storesAt_com (hf : (host.contents path).getD [] = f) (hcom : (hasMz f || isExePath path) = false)
    (hfit : ¬ (f = [] ∨ MAX_COM_SIZE < f.length)) :
    StoresAt host path loadSeg reloc (loadSeg * 16 + COM_ENTRY_OFFSET) (f.map UInt8.toNat) := by
  refine ⟨id, fun m => m.extenderBound, fun mem => AgreesOff.refl _ _, fun m =>
    ⟨{ cs := loadSeg, ip := COM_ENTRY_OFFSET, ss := loadSeg, sp := 0xFFFE, ax := 0 }, ?_⟩⟩
  unfold loadOverlay loadProgramAt
  rw [hf]
  dsimp only
  rw [if_neg (by rw [hcom]; decide), loadComAt, if_neg hfit]
  rfl

/-- What `load_exe_at` does with a file that it takes for an MZ file. -/
theorem loadOverlay_mz (hf : (host.contents path).getD [] = f) (hmz : (hasMz f || isExePath path) = true)
    (hsize : ¬ (f.length < 0x1C ∨ !(hasMz f || f.take 2 = [0x5A, 0x4D]))) {e : Bool}
    (he : extenderDetected host f = some e) (hplain : linearAt host f e = some none) (m : Machine) :
    loadOverlay host path m loadSeg reloc = loadMz f (if e then bindExtender m else m) loadSeg := by
  unfold loadOverlay loadProgramAt
  rw [hf]
  dsimp only
  rw [if_pos hmz]
  unfold loadExeAt
  rw [if_neg hsize, he, Option.bind_eq_bind, Option.bind_some, hplain]
  rfl

theorem storesAt_mz (hf : (host.contents path).getD [] = f) (hmz : (hasMz f || isExePath path) = true)
    (hsize : ¬ (f.length < 0x1C ∨ !(hasMz f || f.take 2 = [0x5A, 0x4D]))) {e : Bool}
    (he : extenderDetected host f = some e) (hplain : linearAt host f e = some none) {h : MzHeader}
    (hin : MzInFile f h) :
    StoresAt host path loadSeg reloc ((loadSeg + 0x10) % 65536 * 16) (fileImage f h) := by
  refine ⟨patchWords ((loadSeg + 0x10) % 65536 * 16) ((loadSeg + 0x10) % 65536) (mzTargets f h),
    fun m => (if e then bindExtender m else m).extenderBound,
    fun mem => (patchWords_off _ _ _ mem).mono fun x hx => wordBytes_above hx, fun m => ?_⟩
  rw [loadOverlay_mz hf hmz hsize he hplain, hin.loadMz_eq]
  cases e
  · exact ⟨_, rfl⟩
  · exact ⟨_, rfl⟩

/-- A byte that is stored over does not matter. -/
theorem storeBytes_over (mem : Mem) (base v : Nat) (hne : bs ≠ []) :
    storeBytes (writeb mem base v) base bs = storeBytes mem base bs := by
  obtain ⟨b, bs, rfl⟩ := List.exists_cons_of_ne_nil hne
  have hbyte : writeb (writeb mem base v) base b = writeb mem base b := by
    funext x
    simp only [writeb]
    split_ifs
    · rfl
    · rfl
  rw [storeBytes, storeBytes, hbyte]

/-- Stored elsewhere, an image is not where it should be, or something else is changed: on one of two memories
    that differ in one byte. -/
theorem StoresAt.misplaced {base : Nat} (h : StoresAt host path loadSeg reloc base bs)
    (hbase : loadSeg * 16 + 2 ≤ base ∨ base + 2 ≤ loadSeg * 16) (hne : bs ≠ []) :
    ¬ OverlayLoads host path bs ts loadSeg reloc := by
  intro hall
  obtain ⟨g, flag, hg, hrun⟩ := h.run
  have hplaced : ∀ mem, ∃ m', m'.mem = g (storeBytes mem base bs) ∧
      OverlayPlaced bs ts loadSeg reloc (bootMachine.setMem mem) m' := by
    intro mem
    obtain ⟨regs, hload⟩ := hrun (bootMachine.setMem mem)
    exact ⟨_, rfl, hall _ _ regs hload⟩
  have hkept : ∀ mem, AgreesOff (Set.Ici base) mem (g (storeBytes mem base bs)) := fun mem =>
    ((storeBytes_off mem base bs).mono fun x hx => hx.1).trans (hg _)
  have hpos : 0 < bs.length := List.length_pos_of_ne_nil hne
  rcases hbase with hhigh | hlow
  · -- the first word of the place stays as it was, whatever was there
    have hsame : ∀ mem, readw (g (storeBytes mem base bs)) (loadSeg * 16) = readw mem (loadSeg * 16) := fun mem =>
      (hkept mem).readw (fun hx => by have hx' : base ≤ loadSeg * 16 := hx; omega)
        (fun hx => by have hx' : base ≤ loadSeg * 16 + 1 := hx; omega)
    -- but it should not depend on its first byte
    have hbyte : ∀ v < 256, readb (writeb (fun _ => 0) (loadSeg * 16) v) (loadSeg * 16) = v := fun v hv => by
      rw [readb_writeb, Nat.mod_eq_of_lt hv]
    have hfirst : ∀ v, readw (g (storeBytes (writeb (fun _ => 0) (loadSeg * 16) v) base bs)) (loadSeg * 16) % 256 =
        if 0 ∈ ts then (readw (storeBytes (fun _ => 0) (loadSeg * 16) bs) (loadSeg * 16) + reloc) % 65536 % 256
        else bs.getD 0 0 % 256 := by
      intro v
      obtain ⟨m', hm', hp⟩ := hplaced (writeb (fun _ => 0) (loadSeg * 16) v)
      split_ifs with hin
      · have hword := hp.words 0 hin
        rw [hm', Nat.add_zero] at hword
        rw [hword]
        exact congrArg (fun mem => (readw mem (loadSeg * 16) + reloc) % 65536 % 256) (storeBytes_over _ _ v hne)
      · have himage := hp.image 0 hpos fun hn => by
          obtain ⟨t, ht, hi⟩ := hn
          rcases hi with rfl | hi
          · exact hin ht
          · omega
        rw [hm', Nat.add_zero] at himage
        rw [readw, himage]
        omega
    have hread : ∀ v < 256, readw (g (storeBytes (writeb (fun _ => 0) (loadSeg * 16) v) base bs)) (loadSeg * 16) % 256 =
        v := by
      intro v hv
      have hb := hbyte v hv
      rw [hsame, readw, hb]
      omega
    have h₀ := (hread 0 (by decide)).symm.trans (hfirst 0)
    have h₁ := (hread 1 (by decide)).symm.trans (hfirst 1)
    exact absurd (h₀.trans h₁.symm) (by decide)
  · -- the byte at `base` is written, but is outside the place of the overlay
    have hbyte : ∀ v < 256, readb (g (storeBytes (fun _ => 0) base bs)) base = v := fun v hv => by
      obtain ⟨m', hm', hp⟩ := hplaced (writeb (fun _ => 0) base v)
      have hout : base ∉ Set.Ico (loadSeg * 16) (loadSeg * 16 + bs.length) ∪ wordBytes (loadSeg * 16) ts := by
        rintro (hx | hx)
        · have hle := hx.1
          omega
        · have hle := wordBytes_above hx
          omega
      have hsame := hp.frame.readb hout
      rw [hm', storeBytes_over _ _ _ hne] at hsame
      refine hsame.trans ?_
      show readb (writeb (fun _ => 0) base v) base = v
      rw [readb_writeb, Nat.mod_eq_of_lt hv]
    have h₀ := hbyte 0 (by decide)
    have h₁ := hbyte 1 (by decide)
    omega

/-- Where words are relocated `256` bytes further on, they should not have been relocated at all. -/
theorem inert_of_placed (hne : ts ≠ [])
    (hall : ∀ mem, ∃ m', m'.mem = patchWords ((loadSeg + 0x10) % 65536 * 16) ((loadSeg + 0x10) % 65536) ts mem ∧
      OverlayPlaced [] ts loadSeg reloc (bootMachine.setMem mem) m') :
    reloc % 65536 = 0 ∧ Inert ((loadSeg + 0x10) % 65536) ts := by
  obtain ⟨t, ht, hlow, hhigh⟩ := word_apart hne (base_apart loadSeg)
  have hzero : reloc % 65536 = 0 := by
    obtain ⟨m', hm', hp⟩ := hall fun _ => 0
    have hword := hp.words t ht
    rw [hm', (patchWords_off _ _ _ _).readw hlow hhigh] at hword
    have hnil : readw (storeBytes (bootMachine.setMem fun _ => 0).mem (loadSeg * 16) []) (loadSeg * 16 + t) =
        readw (fun _ => 0) (loadSeg * 16 + t) := rfl
    have hlt := readw_lt (fun _ => 0) (loadSeg * 16 + t)
    rw [hnil] at hword
    omega
  refine ⟨hzero, fun mem => ?_⟩
  obtain ⟨m', hm', hp⟩ := hall mem
  rw [← hm']
  funext a
  by_cases ha : a ∈ wordBytes (loadSeg * 16) ts
  · obtain ⟨i, ⟨u, hu, hi⟩, rfl⟩ := ha
    have hword := hp.words u hu
    have hlt := readw_lt mem (loadSeg * 16 + u)
    have hsame : readw m'.mem (loadSeg * 16 + u) = readw mem (loadSeg * 16 + u) := by
      refine hword.trans ?_
      show (readw mem (loadSeg * 16 + u) + reloc) % 65536 = _
      omega
    obtain ⟨h₀, h₁⟩ := bytes_of_readw hsame
    rcases hi with rfl | rfl
    · exact h₀
    · exact h₁
  · refine hp.frame a ?_
    rintro (hx | hx)
    · exact absurd hx.2 (Nat.not_lt.mpr hx.1)
    · exact ha hx

/-- The memory stays, and nothing else is changed. -/
theorem placed_of_same (hwords : ts = [] ∨ reloc % 65536 = 0) (m : Machine) :
    OverlayPlaced [] ts loadSeg reloc m m := by
  refine ⟨fun i hi => absurd hi (Nat.not_lt_zero i), fun t ht => ?_, AgreesOff.refl _ _, rfl⟩
  rcases hwords with rfl | hzero
  · cases ht
  · have hlt := readw_lt m.mem (loadSeg * 16 + t)
    show _ = (readw m.mem (loadSeg * 16 + t) + reloc) % 65536
    omega

/-- A load that succeeds of a file that is not a COM file. -/
theorem loadOverlay_cases (hf : (host.contents path).getD [] = f) (hmz : (hasMz f || isExePath path) = true)
    {m m' : Machine} {regs : InitialRegs} (h : loadOverlay host path m loadSeg reloc = some (m', some regs)) :
    ¬ (f.length < 0x1C ∨ !(hasMz f || f.take 2 = [0x5A, 0x4D])) ∧ ∃ e, extenderDetected host f = some e ∧
      ((∃ i, m.ldtInUse i = false ∧ m'.ldtInUse i = true) ∨
        linearAt host f e = some none ∧ ∃ h, MzInFile f h) := by
  unfold loadOverlay loadProgramAt at h
  rw [hf] at h
  dsimp only at h
  rw [if_pos hmz] at h
  unfold loadExeAt at h
  by_cases hsize : f.length < 0x1C ∨ !(hasMz f || f.take 2 = [0x5A, 0x4D])
  · rw [if_pos hsize] at h
    cases h
  rw [if_neg hsize] at h
  simp only [Option.bind_eq_bind, Option.bind_eq_some_iff] at h
  obtain ⟨e, he, linear, hlinear, hload⟩ := h
  refine ⟨hsize, e, he, ?_⟩
  cases linear with
  | none => exact .inr ⟨hlinear, mzInFile_of_loadMz hload⟩
  | some le =>
    obtain ⟨i, hfree, htaken⟩ := FailedLoads.loadLe_takesSlot hload
    refine .inl ⟨i, ?_, htaken⟩
    cases e
    · exact hfree
    · exact hfree

/-- **Overlays.**  A file that can be loaded at all comes to stand where it should exactly if there is nothing
    to load. -/
theorem overlay_iff (hf : (host.contents path).getD [] = f) (h : OverlayFile path f bs ts) (loadSeg reloc : Nat) :
    OverlayLoads host path bs ts loadSeg reloc ↔
      (∀ m m' regs, loadOverlay host path m loadSeg reloc ≠ some (m', some regs)) ∨
        NothingToLoad host f bs ts loadSeg reloc := by
  cases h with
  | com hcom =>
    by_cases hfit : f = [] ∨ MAX_COM_SIZE < f.length
    · have hnone : ∀ m m' regs, loadOverlay host path m loadSeg reloc ≠ some (m', some regs) := by
        intro m m' regs hload
        unfold loadOverlay loadProgramAt at hload
        rw [hf] at hload
        dsimp only at hload
        rw [if_neg (by rw [hcom]; decide), loadComAt, if_pos hfit] at hload
        cases hload
      exact ⟨fun _ => .inl hnone, fun _ m m' regs hload => absurd hload (hnone m m' regs)⟩
    · have hbytes : f.map UInt8.toNat ≠ [] := fun hnil => hfit (.inl (List.map_eq_nil_iff.mp hnil))
      have hstore : StoresAt host path loadSeg reloc (loadSeg * 16 + COM_ENTRY_OFFSET) (f.map UInt8.toNat) :=
        storesAt_com hf hcom hfit
      have hup : loadSeg * 16 + 2 ≤ loadSeg * 16 + COM_ENTRY_OFFSET := by
        simp only [COM_ENTRY_OFFSET]
        omega
      refine iff_of_false (hstore.misplaced (.inl hup) hbytes) ?_
      rintro (hnone | hnothing)
      · obtain ⟨g, flag, -, hrun⟩ := hstore.run
        obtain ⟨regs, hload⟩ := hrun bootMachine
        exact hnone _ _ _ hload
      · exact hbytes hnothing.image
  | @mz h hmz hh =>
    constructor
    · intro hall
      by_cases hnone : ∀ m m' regs, loadOverlay host path m loadSeg reloc ≠ some (m', some regs)
      · exact .inl hnone
      simp only [not_forall, not_not] at hnone
      obtain ⟨m, m', regs, hload⟩ := hnone
      obtain ⟨hsize, e, he, ⟨i, hfree, htaken⟩ | ⟨hplain, h', hin⟩⟩ := loadOverlay_cases hf hmz hload
      · -- a linear executable takes a slot
        have hslots : m'.ldtInUse = m.ldtInUse := by
          rw [(hall _ _ _ hload).process]
        rw [hslots, hfree] at htaken
        cases htaken
      obtain rfl : h' = h := Option.some.inj (hin.header.symm.trans hh)
      have hloads : ∀ m, loadOverlay host path m loadSeg reloc = loadMz f (if e then bindExtender m else m) loadSeg :=
        loadOverlay_mz hf hmz hsize he hplain
      have hrun := fun m => (hloads m).trans (hin.loadMz_eq _ loadSeg)
      have himage : fileImage f h' = [] := by
        by_contra hne
        exact (storesAt_mz hf hmz hsize he hplain hin).misplaced (base_apart loadSeg) hne hall
      have hstub : e = false := by
        cases e with
        | false => rfl
        | true =>
          -- the flag is set, and was not
          have hflag : true = bootMachine.extenderBound :=
            congrArg Machine.extenderBound (hall _ _ _ (hrun bootMachine)).process
          exact absurd hflag (by decide)
      rw [hstub] at he hplain hrun
      refine .inr ⟨he, hplain, himage, ?_⟩
      by_cases hts : mzTargets f h' = []
      · exact .inl hts
      · rw [himage] at hall
        refine .inr (inert_of_placed hts fun mem => ⟨_, ?_, hall _ _ _ (hrun (bootMachine.setMem mem))⟩)
        rw [himage]
        rfl
    · rintro (hnone | hnothing) m m' regs hload
      · exact absurd hload (hnone m m' regs)
      obtain ⟨hstub, hplain, himage, hwords⟩ := hnothing
      obtain ⟨hsize, e, he, hrest⟩ := loadOverlay_cases hf hmz hload
      obtain rfl : e = false := Option.some.inj (he.symm.trans hstub)
      rw [loadOverlay_mz hf hmz hsize hstub hplain] at hload
      obtain ⟨h', hin⟩ := mzInFile_of_loadMz hload
      obtain rfl : h' = h := Option.some.inj (hin.header.symm.trans hh)
      rw [hin.loadMz_eq, himage] at hload
      obtain ⟨rfl, -⟩ := Prod.mk.inj (Option.some.inj hload)
      have hsame : patchWords ((loadSeg + 0x10) % 65536 * 16) ((loadSeg + 0x10) % 65536) (mzTargets f h') m.mem =
          m.mem := by
        rcases hwords with hnil | ⟨-, hinert⟩
        · rw [hnil]
          rfl
        · exact hinert m.mem
      have hmachine : m.setMem (patchWords ((loadSeg + 0x10) % 65536 * 16) ((loadSeg + 0x10) % 65536)
          (mzTargets f h') (storeBytes m.mem ((loadSeg + 0x10) % 65536 * 16) [])) = m := by
        rw [storeBytes, hsame]
        rfl
      rw [himage]
      exact Eq.mp (congrArg (OverlayPlaced [] (mzTargets f h') loadSeg reloc m) hmachine.symm)
        (placed_of_same (hwords.imp_right fun h => h.1) m)

end Files

/-! ### Two overlays -/

/-- The parameter block at 0:0 names load segment and factor 3000h. -/
def overlayCall : Machine :=
  { bootMachine with mem := writew (writew bootMachine.mem 0 0x3000) 2 0x3000 }

/-- A COM file of one byte is put at 3000:0100. -/
theorem overlay_misplaced : ∃ m', int21_4B03 Nesting.tinyHost overlayCall = some (m', false) ∧
    ¬ OverlayPlaced [0xC3] [] 0x3000 0x3000 overlayCall m' := by
  have hrun : (int21_4B03 Nesting.tinyHost overlayCall).map
      (fun r => (r.2, readb r.1.mem 0x30000, readb r.1.mem 0x30100)) = some (false, 0, 0xC3) := by
    decide +kernel
  obtain ⟨⟨m', cf⟩, hcall, hbytes⟩ := Option.map_eq_some_iff.mp hrun
  obtain ⟨hcf, hbytes⟩ := Prod.mk.inj hbytes
  obtain ⟨hfirst, -⟩ := Prod.mk.inj hbytes
  dsimp only at hcf hfirst
  subst hcf
  refine ⟨m', hcall, fun h => ?_⟩
  have himage := h.image 0 (by decide) (by rintro ⟨t, ht, -⟩; cases ht)
  rw [Nat.add_zero, hfirst] at himage
  exact absurd himage (by decide)

/-- A host with one MZ file. -/
def mzHost (f : List UInt8) : Host := { Nesting.tinyHost with contents := fun _ => some f }

/-- A header that names a word and has no image, loaded at FFF0:0 with the factor 0; and an image of four
    bytes. -/
theorem overlay_iff_files :
    OverlayLoads (mzHost (mzFile 0 1 [])) [] (fileImage (mzFile 0 1 []) (smallHeader 0 1))
      (mzTargets (mzFile 0 1 []) (smallHeader 0 1)) 0xFFF0 0 ∧
    ¬ OverlayLoads (mzHost smallMz) [] (fileImage smallMz (smallHeader 4 1))
      (mzTargets smallMz (smallHeader 4 1)) 0x3000 0x3000 := by
  constructor
  · exact (overlay_iff rfl (.mz rfl rfl) 0xFFF0 0).mpr
      (.inr ⟨by decide +kernel, by decide +kernel, by decide +kernel, .inr ⟨rfl, inert_zero _⟩⟩)
  · refine (overlay_iff rfl (.mz rfl rfl) 0x3000 0x3000).not.mpr ?_
    have hload : (loadOverlay (mzHost smallMz) [] bootMachine 0x3000 0x3000).map (fun r => r.2.isSome) = some true := by
      decide +kernel
    rintro (hnone | hnothing)
    · obtain ⟨⟨m', regs⟩, hrun, hsome⟩ := Option.map_eq_some_iff.mp hload
      obtain ⟨regs, rfl⟩ := Option.isSome_iff_exists.mp hsome
      exact hnone _ _ _ hrun
    · have himage : fileImage smallMz (smallHeader 4 1) ≠ [] := by decide +kernel
      exact himage hnothing.image

end Dosiz
