/-
  Dosiz/MzImage.lean
  ==================
  **The image of an MZ file** (`load_exe_at` of `bridge.cc`).

  The loader copies the image that three header fields delimit and adds the load segment to
  the words the relocation table names, one after the other.  `relocByte` says what the
  result is, byte by byte.  On the way the loader looks for an LE header, at an offset
  from the file that it adds 2 to in 32 bits: `mzLoads_iff` says when that goes wrong.
-/
import Dosiz.ChildBlocks
import Dosiz.LeMemory

namespace Dosiz

open ByteMemory Machine

/-! ### Relocated images -/

/-- The word of `bs` at `t`, with `k` added to it. -/
def relocWord (bs : List Nat) (k t : Nat) : Nat := (bs.getD t 0 + 256 * bs.getD (t + 1) 0 + k) % 65536

/-- Byte `i` of `bs` after `k` has been added to the words at `ts`. -/
def relocByte (bs ts : List Nat) (k i : Nat) : Nat :=
  if i ∈ ts then relocWord bs k i % 256
  else if 0 < i ∧ i - 1 ∈ ts then relocWord bs k (i - 1) / 256
  else bs.getD i 0

/-- `bs`, relocated by `k` at `ts`, stands at `base`, and nothing else has changed. -/
structure Loaded (bs ts : List Nat) (k base : Nat) (mem mem' : Mem) : Prop where
  image : ∀ i < bs.length, readb mem' (base + i) = relocByte bs ts k i
  frame : AgreesOff (Set.Ico base (base + bs.length)) mem mem'

/-- Two words that do not overlap. -/
def WordsApart (t u : Nat) : Prop := t + 2 ≤ u ∨ u + 2 ≤ t

/-- Add `k` to the words at `ts`, one after the other. -/
def patchWords (base k : Nat) (ts : List Nat) (mem : Mem) : Mem :=
  ts.foldl (fun mem t => writew mem (base + t) (readw mem (base + t) + k)) mem

section Images

variable {bs ts : List Nat} {k base t : Nat} {mem mem' : Mem}

theorem relocByte_nil (bs : List Nat) (k i : Nat) : relocByte bs [] k i = bs.getD i 0 := by
  rw [relocByte, if_neg (by simp), if_neg (by simp)]

theorem relocWord_lt (bs : List Nat) (k t : Nat) : relocWord bs k t < 65536 := Nat.mod_lt _ (by decide)

/-- Away from the words nothing is changed. -/
theorem relocByte_apart {i : Nat} (h : ∀ u ∈ ts, i ≠ u ∧ i ≠ u + 1) : relocByte bs ts k i = bs.getD i 0 := by
  rw [relocByte, if_neg fun hi => (h i hi).1 rfl, if_neg]
  rintro ⟨hpos, hi⟩
  have hne := (h (i - 1) hi).2
  omega

theorem relocByte_snoc_low (ts : List Nat) : relocByte bs (ts ++ [t]) k t = relocWord bs k t % 256 := by
  rw [relocByte, if_pos (by simp)]

theorem relocByte_snoc_high (h : t + 1 ∉ ts) :
    relocByte bs (ts ++ [t]) k (t + 1) = relocWord bs k t / 256 := by
  have hno : t + 1 ∉ ts ++ [t] := by
    simp [h]
  rw [relocByte, if_neg hno, if_pos ⟨Nat.succ_pos t, by simp⟩, Nat.add_sub_cancel]

theorem relocByte_snoc_of_ne {i : Nat} (h₀ : i ≠ t) (h₁ : i ≠ t + 1) :
    relocByte bs (ts ++ [t]) k i = relocByte bs ts k i := by
  have hmem : i ∈ ts ++ [t] ↔ i ∈ ts := by
    simp [h₀]
  have hmem' : 0 < i ∧ i - 1 ∈ ts ++ [t] ↔ 0 < i ∧ i - 1 ∈ ts := by
    simp only [List.mem_append, List.mem_singleton]
    constructor
    · rintro ⟨hpos, hi | hi⟩
      · exact ⟨hpos, hi⟩
      · omega
    · rintro ⟨hpos, hi⟩
      exact ⟨hpos, Or.inl hi⟩
  simp only [relocByte, hmem, hmem']

/-- One relocation more. -/
theorem Loaded.patch (h : Loaded bs ts k base mem mem') (hin : t + 2 ≤ bs.length)
    (hap : ∀ u ∈ ts, WordsApart u t) :
    Loaded bs (ts ++ [t]) k base mem (writew mem' (base + t) (readw mem' (base + t) + k)) := by
  have hfree : ∀ u ∈ ts, (t ≠ u ∧ t ≠ u + 1) ∧ (t + 1 ≠ u ∧ t + 1 ≠ u + 1) := fun u hu => by
    have hu' := hap u hu
    unfold WordsApart at hu'
    omega
  have hlow := h.image t (by omega)
  have hhigh := h.image (t + 1) (by omega)
  rw [relocByte_apart fun u hu => (hfree u hu).1] at hlow
  rw [relocByte_apart fun u hu => (hfree u hu).2] at hhigh
  have hword : (readw mem' (base + t) + k) % 65536 = relocWord bs k t := by
    rw [readw, hlow, Nat.add_assoc base t 1, hhigh, relocWord]
  have hlt := relocWord_lt bs k t
  refine ⟨fun i hi => ?_, h.frame.trans ((writew_off _ _ _).mono fun x hx => ?_)⟩
  · by_cases h₀ : i = t
    · rw [h₀, relocByte_snoc_low, writew, readb_writeb_of_ne (by omega), readb_writeb]
      omega
    · by_cases h₁ : i = t + 1
      · rw [h₁, relocByte_snoc_high fun ht => (hfree _ ht).2.1 rfl, writew, ← Nat.add_assoc, readb_writeb]
        omega
      · rw [relocByte_snoc_of_ne h₀ h₁, readb_writew_of_ne (by omega) (by omega)]
        exact h.image i hi
  · have hx₁ := hx.1
    have hx₂ := hx.2
    exact ⟨by omega, by omega⟩

theorem Loaded.patchWords : ∀ {us ts : List Nat} {mem' : Mem}, Loaded bs ts k base mem mem' →
    (∀ u ∈ us, u + 2 ≤ bs.length) → (ts ++ us).Pairwise WordsApart →
      Loaded bs (ts ++ us) k base mem (patchWords base k us mem')
  | [], ts, _, h, _, _ => by
    rw [List.append_nil]
    exact h
  | u :: us, ts, mem', h, hin, hap => by
    have hsplit : ts ++ u :: us = ts ++ [u] ++ us := by simp
    have hthis : ∀ a ∈ ts, WordsApart a u := fun a ha =>
      (List.pairwise_append.mp hap).2.2 a ha u List.mem_cons_self
    rw [hsplit] at hap ⊢
    exact Loaded.patchWords (h.patch (hin u List.mem_cons_self) hthis)
      (fun a ha => hin a (List.mem_cons_of_mem u ha)) hap

theorem loaded_storeBytes (hlt : ∀ b ∈ bs, b < 256) (k base : Nat) (mem : Mem) :
    Loaded bs [] k base mem (storeBytes mem base bs) := by
  refine ⟨fun i hi => ?_, storeBytes_off _ _ _⟩
  rw [relocByte_nil, readb_storeBytes _ _ _ hi, List.getD_eq_getElem _ _ hi,
    Nat.mod_eq_of_lt (hlt _ (List.getElem_mem hi))]

end Images

/-! ### Well-formed files -/

/-- The place a relocation names, in the image. -/
def relocTarget (f : List UInt8) (h : MzHeader) (i : Nat) : Nat :=
  (rdw f (h.relocOff + i * 4 + 2)).getD 0 * 16 + (rdw f (h.relocOff + i * 4)).getD 0

def mzTargets (f : List UInt8) (h : MzHeader) : List Nat := (List.range h.relocCount).map (relocTarget f h)

/-- Where the image ends in the file: full pages, or the last page as far as it is used. -/
def MzHeader.imageEnd (h : MzHeader) : Nat :=
  if h.lastPage = 0 then h.pages * 512 else (h.pages - 1) * 512 + h.lastPage

def mzImage (f : List UInt8) (h : MzHeader) : List Nat :=
  ((f.drop (h.headerParas * 16)).take (h.imageEnd - h.headerParas * 16)).map UInt8.toNat

/-- An MZ file whose header describes an image in the file, with its relocations in the image. -/
structure WellFormedMz (f : List UInt8) (h : MzHeader) : Prop where
  length : 0x1C ≤ f.length
  signature : hasMz f = true ∨ f.take 2 = [0x5A, 0x4D]
  header : readMzHeader f = some h
  pages : h.lastPage ≠ 0 → 1 ≤ h.pages
  start : h.headerParas * 16 ≤ h.imageEnd
  stop : h.imageEnd ≤ f.length
  table : h.relocOff + h.relocCount * 4 ≤ f.length
  inside : ∀ t ∈ mzTargets f h, t + 2 ≤ (mzImage f h).length
  apart : (mzTargets f h).Pairwise WordsApart

section Files

variable {f : List UInt8} {h : MzHeader}

theorem byteAt_some {off : Nat} (h : off < f.length) : ∃ b, byteAt f off = some b := by
  rw [byteAt, List.getElem?_eq_getElem h]
  exact ⟨_, rfl⟩

theorem rdw_some {off : Nat} (h : off + 1 < f.length) : ∃ w, rdw f off = some w := by
  obtain ⟨lo, hlo⟩ := byteAt_some (show off < f.length by omega)
  obtain ⟨hi, hhi⟩ := byteAt_some h
  exact ⟨lo + 256 * hi, by rw [rdw, hlo, hhi]; rfl⟩

theorem rdd_some {off : Nat} (h : off + 3 < f.length) : ∃ d, rdd f off = some d := by
  obtain ⟨lo, hlo⟩ := rdw_some (show off + 1 < f.length by omega)
  obtain ⟨hi, hhi⟩ := rdw_some (show off + 2 + 1 < f.length by omega)
  exact ⟨lo + 65536 * hi, by rw [rdd, hlo, hhi]; rfl⟩

theorem readBytes_eq : ∀ {n off : Nat}, off + n ≤ f.length →
    readBytes f off n = some (((f.drop off).take n).map UInt8.toNat)
  | 0, off, _ => by
    rw [readBytes, List.take_zero, List.map_nil]
  | n + 1, off, h => by
    have hoff : off < f.length := by omega
    have hbyte : byteAt f off = some (f[off]).toNat := by
      rw [byteAt, List.getElem?_eq_getElem hoff, Option.map_some]
    rw [readBytes, hbyte, readBytes_eq (show off + 1 + n ≤ f.length by omega), List.drop_eq_getElem_cons hoff]
    rfl

theorem mzImage_lt : ∀ b ∈ mzImage f h, b < 256 := by
  intro b hb
  obtain ⟨c, -, rfl⟩ := List.mem_map.mp hb
  exact c.toNat_lt

/-- The file's size rule is the header's. -/
theorem totalBytes_eq (hw : WellFormedMz f h) (hlt : h.imageEnd < 2 ^ 64) : h.totalBytes = h.imageEnd := by
  unfold MzHeader.totalBytes
  unfold MzHeader.imageEnd at hlt ⊢
  by_cases hz : h.lastPage = 0
  · rw [if_pos hz, if_pos hz]
  · have hp := hw.pages hz
    rw [if_neg hz] at hlt
    rw [if_neg hz, if_neg hz]
    omega

/-- The relocations of a table in the file are all made. -/
theorem relocate_eq {loadSeg : Nat} : ∀ {n i : Nat} (mem : Mem),
    (∀ k < n, h.relocOff + (i + k) * 4 + 3 < f.length) → relocate f loadSeg h.relocOff n i mem =
      some (patchWords (loadSeg * 16) loadSeg ((List.range' i n).map (relocTarget f h)) mem, true)
  | 0, i, mem, _ => rfl
  | n + 1, i, mem, htable => by
    have hentry := htable 0 (Nat.succ_pos n)
    obtain ⟨off, hoff⟩ := rdw_some (show h.relocOff + i * 4 + 1 < f.length by omega)
    obtain ⟨seg, hseg⟩ := rdw_some (show h.relocOff + i * 4 + 2 + 1 < f.length by omega)
    have htarget : (loadSeg + seg) * 16 + off = loadSeg * 16 + relocTarget f h i := by
      rw [relocTarget, hoff, hseg, Option.getD_some, Option.getD_some]
      omega
    have hrest : ∀ k < n, h.relocOff + (i + 1 + k) * 4 + 3 < f.length := by
      intro k hk
      have hnext := htable (k + 1) (Nat.succ_lt_succ hk)
      rwa [Nat.add_right_comm i 1 k]
    rw [relocate]
    dsimp only
    rw [if_neg (by omega), hoff, hseg]
    show relocate f loadSeg h.relocOff n (i + 1) (writew mem ((loadSeg + seg) * 16 + off)
      (readw mem ((loadSeg + seg) * 16 + off) + loadSeg)) = _
    rw [relocate_eq _ hrest, htarget, List.range'_succ]
    rfl

/-- If they are all made, the table lies in the file. -/
theorem relocate_inside {loadSeg : Nat} : ∀ {n i : Nat} {mem mem' : Mem},
    relocate f loadSeg h.relocOff n i mem = some (mem', true) →
      ∀ k < n, h.relocOff + (i + k) * 4 + 3 < f.length
  | 0, _, _, _, _, k, hk => absurd hk (Nat.not_lt_zero k)
  | n + 1, i, mem, mem', hrel, k, hk => by
    rw [relocate] at hrel
    dsimp only at hrel
    by_cases hout : f.length ≤ h.relocOff + i * 4 + 3
    · rw [if_pos hout] at hrel
      cases hrel
    · rw [if_neg hout] at hrel
      simp only [Option.bind_eq_bind, Option.bind_eq_some_iff] at hrel
      obtain ⟨off, -, seg, -, hrel⟩ := hrel
      rcases k with _ | k
      · exact Nat.lt_of_not_le hout
      · have hnext := relocate_inside hrel k (Nat.lt_of_succ_lt_succ hk)
        rwa [Nat.add_right_comm i 1 k] at hnext

theorem imageEnd_lt (hh : readMzHeader f = some h) : h.imageEnd < 2 ^ 64 := by
  simp only [readMzHeader, Option.bind_eq_bind, Option.bind_eq_some_iff] at hh
  obtain ⟨last, hlast, pages, hpages, _, -, _, -, _, -, _, -, _, -, _, -, _, -, hh⟩ := hh
  cases hh
  have h₁ := rdw_lt hlast
  have h₂ := rdw_lt hpages
  unfold MzHeader.imageEnd
  dsimp only
  split_ifs
  · omega
  · omega

/-- The bytes that the header of a file delimits. -/
def fileImage (f : List UInt8) (h : MzHeader) : List Nat :=
  ((f.drop (h.headerParas * 16)).take (h.totalBytes - h.headerParas * 16)).map UInt8.toNat

/-- The image and the relocation table that the header describes lie in the file. -/
structure MzInFile (f : List UInt8) (h : MzHeader) : Prop where
  header : readMzHeader f = some h
  start : h.headerParas * 16 ≤ h.totalBytes
  stop : h.totalBytes ≤ f.length
  table : ∀ i < h.relocCount, h.relocOff + i * 4 + 3 < f.length

theorem WellFormedMz.inFile (hw : WellFormedMz f h) : MzInFile f h := by
  have htotal := totalBytes_eq hw (imageEnd_lt hw.header)
  have htable := hw.table
  refine ⟨hw.header, ?_, ?_, fun i hi => by omega⟩
  · rw [htotal]
    exact hw.start
  · rw [htotal]
    exact hw.stop

theorem fileImage_eq (hw : WellFormedMz f h) : fileImage f h = mzImage f h := by
  rw [fileImage, mzImage, totalBytes_eq hw (imageEnd_lt hw.header)]

/-- The MZ path loads such a file, at whatever segment. -/
theorem MzInFile.loadMz_eq (hin : MzInFile f h) (m : Machine) (psp : Nat) :
    loadMz f m psp = some (m.setMem (patchWords ((psp + 0x10) % 65536 * 16) ((psp + 0x10) % 65536)
        (mzTargets f h) (storeBytes m.mem ((psp + 0x10) % 65536 * 16) (fileImage f h))),
      some { cs := ((psp + 0x10) % 65536 + h.cs) % 65536
             ip := h.ip
             ss := ((psp + 0x10) % 65536 + h.ss) % 65536
             sp := h.sp
             ax := 0 }) := by
  have hstart := hin.start
  have hstop := hin.stop
  have himage : readBytes f (h.headerParas * 16) (h.totalBytes - h.headerParas * 16) = some (fileImage f h) :=
    readBytes_eq (by omega)
  have hrel := fun mem => @relocate_eq f h ((psp + 0x10) % 65536) h.relocCount 0 mem
    (fun k hk => by rw [Nat.zero_add]; exact hin.table k hk)
  rw [← List.range_eq_range'] at hrel
  unfold loadMz
  dsimp only
  rw [hin.header, Option.bind_eq_bind, Option.bind_some, if_neg (by omega), himage,
    Option.bind_eq_bind, Option.bind_some, hrel]
  rfl

/-- It loads no other. -/
theorem mzInFile_of_loadMz {m m' : Machine} {psp : Nat} {regs : InitialRegs}
    (hload : loadMz f m psp = some (m', some regs)) : ∃ h, MzInFile f h := by
  unfold loadMz at hload
  simp only [Option.bind_eq_bind, Option.bind_eq_some_iff] at hload
  obtain ⟨h, hh, hload⟩ := hload
  split at hload
  · cases hload
  · rename_i hsize
    obtain ⟨hstart, hstop⟩ := not_or.mp hsize
    simp only [Option.bind_eq_some_iff] at hload
    obtain ⟨image, -, ⟨mem, ok⟩, hrel, hload⟩ := hload
    cases ok with
    | false => cases hload
    | true =>
      refine ⟨h, hh, Nat.le_of_not_lt hstart, Nat.le_of_not_lt hstop, fun i hi => ?_⟩
      have hentry := relocate_inside hrel i hi
      rwa [Nat.zero_add] at hentry

/-- The MZ path loads a well-formed file. -/
theorem loadMz_eq (hw : WellFormedMz f h) (m : Machine) (psp : Nat) :
    loadMz f m psp = some (m.setMem (patchWords ((psp + 0x10) % 65536 * 16) ((psp + 0x10) % 65536)
        (mzTargets f h) (storeBytes m.mem ((psp + 0x10) % 65536 * 16) (mzImage f h))),
      some { cs := ((psp + 0x10) % 65536 + h.cs) % 65536
             ip := h.ip
             ss := ((psp + 0x10) % 65536 + h.ss) % 65536
             sp := h.sp
             ax := 0 }) := by
  rw [← fileImage_eq hw]
  exact hw.inFile.loadMz_eq m psp

end Files

/-! ### The search for an LE header -/

/-- There is no `LE` or `LX` where the header points to. -/
def NoLinear (f : List UInt8) : Prop :=
  ∀ le, rdd f 0x3C = some le → byteAt f le = some 0x4C →
    byteAt f (le + 1) ≠ some 0x45 ∧ byteAt f (le + 1) ≠ some 0x58

/-- The test `le_off + 2 <= f.size()` does not wrap, or the bytes it should have guarded are there all the
    same. -/
def SignatureGuarded (f : List UInt8) (le : Nat) : Prop :=
  le < 0xFFFFFFFE ∨ le < f.length ∧ (byteAt f le = some 0x4C → lin (le + 1) < f.length)

/-- The loader does not look for the header, or the file has it where it looks. -/
def LooksInside (host : Host) (f : List UInt8) : Prop :=
  extenderDetected host f = some true ∨ f.length < 0x40 ∨ host.leAsMz = true ∨
    ∀ le, rdd f 0x3C = some le → SignatureGuarded f le

section Linear

variable {host : Host} {f : List UInt8} {h : MzHeader}

theorem extenderDetected_some (host : Host) (f : List UInt8) : ∃ e, extenderDetected host f = some e := by
  unfold extenderDetected
  by_cases hlen : f.length < 0x40
  · exact ⟨false, if_pos hlen⟩
  · obtain ⟨le, hle⟩ := rdd_some (show 0x3C + 3 < f.length by omega)
    rw [if_neg hlen, hle]
    exact ⟨_, rfl⟩

/-- The first byte of the file is a letter of `MZ`. -/
theorem first_byte (hw : WellFormedMz f h) : byteAt f 0 ≠ some 0x45 ∧ byteAt f 0 ≠ some 0x58 := by
  have hlen := hw.length
  match f, hlen with
  | a :: b :: rest, _ =>
    have hab : a = 0x4D ∨ a = 0x5A := by
      rcases hw.signature with hsig | hsig
      · have hsig' : [a, b] = [0x4D, 0x5A] := of_decide_eq_true hsig
        exact Or.inl (List.cons.inj hsig').1
      · exact Or.inr (List.cons.inj hsig).1
    have hbyte : byteAt (a :: b :: rest) 0 = some a.toNat := rfl
    rw [hbyte]
    rcases hab with rfl | rfl
    · exact ⟨by decide, by decide⟩
    · exact ⟨by decide, by decide⟩

theorem byteAt_none {off : Nat} (h : f.length ≤ off) : byteAt f off = none := by
  rw [byteAt, List.getElem?_eq_none h, Option.map_none]

/-- The look at the letters `LE` or `LX` at `le`. -/
def leSignature (f : List UInt8) (le : Nat) : Option (Option Nat) := do
  if le = 0 ∨ f.length < lin (le + 2) then return none
  let c₀ ← byteAt f le
  if c₀ ≠ 0x4C then return none
  let c₁ ← byteAt f (lin (le + 1))
  return if c₁ = 0x45 ∨ c₁ = 0x58 then some le else none

/-- With a first letter `L`, the second one decides. -/
theorem leSignature_second {le c : Nat} (hgo : ¬ (le = 0 ∨ f.length < lin (le + 2)))
    (hL : byteAt f le = some 0x4C) (hc : byteAt f (lin (le + 1)) = some c) (hE : c ≠ 0x45) (hX : c ≠ 0x58) :
    leSignature f le = some none := by
  unfold leSignature
  rw [if_neg hgo, hL, Option.bind_eq_bind, Option.bind_some, if_neg (by simp), hc, Option.bind_some,
    if_neg (not_or.mpr ⟨hE, hX⟩)]
  rfl

/-- Another first letter ends the search. -/
theorem leSignature_first {le c : Nat} (hgo : ¬ (le = 0 ∨ f.length < lin (le + 2)))
    (hc : byteAt f le = some c) (hL : c ≠ 0x4C) : leSignature f le = some none := by
  unfold leSignature
  rw [if_neg hgo, hc, Option.bind_eq_bind, Option.bind_some, if_pos hL]
  rfl

theorem leSignature_eq {le : Nat} (hlt : le < 4294967296) (hlen : 0x40 ≤ f.length)
    (hno : byteAt f le = some 0x4C → byteAt f (le + 1) ≠ some 0x45 ∧ byteAt f (le + 1) ≠ some 0x58)
    (hfirst : byteAt f 0 ≠ some 0x45 ∧ byteAt f 0 ≠ some 0x58) :
    (SignatureGuarded f le → leSignature f le = some none) ∧
      (¬ SignatureGuarded f le → leSignature f le = none) := by
  -- the letter behind an `L` inside the file
  have hsecond : byteAt f le = some 0x4C → ∀ c, byteAt f (lin (le + 1)) = some c → c ≠ 0x45 ∧ c ≠ 0x58 := by
    intro hL c hc
    have hor : lin (le + 1) = le + 1 ∨ lin (le + 1) = 0 := by
      simp only [lin]
      omega
    rcases hor with heq | heq
    · rw [heq] at hc
      obtain ⟨hE, hX⟩ := hno hL
      exact ⟨fun h => hE (h ▸ hc), fun h => hX (h ▸ hc)⟩
    · rw [heq] at hc
      exact ⟨fun h => hfirst.1 (h ▸ hc), fun h => hfirst.2 (h ▸ hc)⟩
  by_cases hskip : le = 0 ∨ f.length < lin (le + 2)
  · have hsmall : le < 0xFFFFFFFE := by
      simp only [lin] at hskip
      omega
    refine ⟨fun _ => ?_, fun hn => absurd (Or.inl hsmall) hn⟩
    unfold leSignature
    rw [if_pos hskip]
    rfl
  · by_cases hin : le < f.length
    · obtain ⟨c₀, hc₀⟩ := byteAt_some hin
      by_cases hL : c₀ = 0x4C
      · rw [hL] at hc₀
        by_cases hin' : lin (le + 1) < f.length
        · obtain ⟨c₁, hc₁⟩ := byteAt_some hin'
          obtain ⟨hE, hX⟩ := hsecond hc₀ c₁ hc₁
          exact ⟨fun _ => leSignature_second hskip hc₀ hc₁ hE hX,
            fun hn => absurd (Or.inr ⟨hin, fun _ => hin'⟩) hn⟩
        · have hwrap : ¬ le < 0xFFFFFFFE := by
            simp only [lin] at hskip hin'
            omega
          refine ⟨fun hg => ?_, fun _ => ?_⟩
          · rcases hg with h | h
            · exact absurd h hwrap
            · exact absurd (h.2 hc₀) hin'
          · unfold leSignature
            rw [if_neg hskip, hc₀, Option.bind_eq_bind, Option.bind_some, if_neg (by simp),
              byteAt_none (Nat.le_of_not_lt hin')]
            rfl
      · exact ⟨fun _ => leSignature_first hskip hc₀ hL, fun hn => absurd
          (Or.inr ⟨hin, fun h => absurd (Option.some.inj (hc₀.symm.trans h)) hL⟩) hn⟩
    · have hwrap : ¬ le < 0xFFFFFFFE := by
        simp only [lin] at hskip
        omega
      refine ⟨fun hg => ?_, fun _ => ?_⟩
      · rcases hg with h | h
        · exact absurd h hwrap
        · exact absurd h.1 hin
      · unfold leSignature
        rw [if_neg hskip, byteAt_none (Nat.le_of_not_lt hin)]
        rfl

/-- The search comes to nothing, unless it leaves the file. -/
theorem linearAt_eq (hw : WellFormedMz f h) (hno : NoLinear f) {e : Bool}
    (he : extenderDetected host f = some e) :
    (LooksInside host f → linearAt host f e = some none) ∧ (¬ LooksInside host f → linearAt host f e = none) := by
  have hlook : LooksInside host f ↔ e = true ∨ f.length < 0x40 ∨ host.leAsMz = true ∨
      ∀ le, rdd f 0x3C = some le → SignatureGuarded f le := by
    rw [LooksInside, he, Option.some.injEq]
  rw [hlook]
  unfold linearAt
  by_cases hskip : e = true ∨ f.length < 0x40 ∨ host.leAsMz = true
  · have hcond : (e || decide (f.length < 0x40) || host.leAsMz) = true := by
      rcases hskip with h₀ | h₀ | h₀ <;> simp [h₀]
    rw [if_pos hcond]
    refine ⟨fun _ => rfl, fun hn => absurd ?_ hn⟩
    rcases hskip with h₀ | h₀ | h₀
    · exact Or.inl h₀
    · exact Or.inr (Or.inl h₀)
    · exact Or.inr (Or.inr (Or.inl h₀))
  · rw [not_or, not_or] at hskip
    obtain ⟨h₀, h₁, h₂⟩ := hskip
    have hcond : ¬ (e || decide (f.length < 0x40) || host.leAsMz) = true := by
      simp [h₀, h₁, h₂]
    obtain ⟨le, hle⟩ := rdd_some (show 0x3C + 3 < f.length by omega)
    have hlt := rdd_lt hle
    have hguard : (e = true ∨ f.length < 0x40 ∨ host.leAsMz = true ∨
        ∀ le, rdd f 0x3C = some le → SignatureGuarded f le) ↔ SignatureGuarded f le := by
      constructor
      · rintro (h | h | h | h)
        · exact absurd h h₀
        · exact absurd h h₁
        · exact absurd h h₂
        · exact h le hle
      · intro h
        refine Or.inr (Or.inr (Or.inr fun le' hle' => ?_))
        rw [hle] at hle'
        cases hle'
        exact h
    rw [hguard, if_neg hcond, hle]
    exact leSignature_eq hlt (by omega) (hno le hle) (first_byte hw)

end Linear

/-! ### The loader -/

/-- The file is loaded at `psp` + 10h: image and entry are those of the header, and nothing else is written but
    the flag for a bound extender. -/
def MzLoads (host : Host) (f : List UInt8) (h : MzHeader) (m : Machine) (psp : Nat) : Prop :=
  ∃ mem flag, loadExeAt host f m psp = some ({ m with mem := mem, extenderBound := flag },
      some { cs := psp + 0x10 + h.cs
             ip := h.ip
             ss := psp + 0x10 + h.ss
             sp := h.sp
             ax := 0 }) ∧
    Loaded (mzImage f h) (mzTargets f h) (psp + 0x10) ((psp + 0x10) * 16) m.mem mem

section Loader

variable {host : Host} {f : List UInt8} {h : MzHeader}

/-- The loader takes it for an MZ file. -/
theorem WellFormedMz.recognised (hw : WellFormedMz f h) :
    ¬ (f.length < 0x1C ∨ !(hasMz f || f.take 2 = [0x5A, 0x4D])) := by
  have hlen := hw.length
  rintro (h' | h')
  · omega
  · rcases hw.signature with hs | hs <;> simp [hs] at h'

/-- A well-formed file with no LE header goes the MZ path. -/
theorem loadExeAt_mz (hw : WellFormedMz f h) (hno : NoLinear f) (hlook : LooksInside host f) (m : Machine)
    (psp : Nat) : ∃ flag, loadExeAt host f m psp = loadMz f { m with extenderBound := flag } psp ∧
      (extenderDetected host f = some false → flag = m.extenderBound) ∧
      (extenderDetected host f = some true → flag = true) := by
  obtain ⟨e, he⟩ := extenderDetected_some host f
  have hlin := (linearAt_eq hw hno he).1 hlook
  refine ⟨if e then true else m.extenderBound, ?_, fun hfalse => ?_, fun htrue => ?_⟩
  · unfold loadExeAt
    rw [if_neg hw.recognised, he, Option.bind_eq_bind, Option.bind_some, hlin]
    cases e
    · rfl
    · rfl
  · rw [he] at hfalse
    cases hfalse
    rfl
  · rw [he] at htrue
    cases htrue
    rfl

theorem loadExeAt_outside (hw : WellFormedMz f h) (hno : NoLinear f) (hlook : ¬ LooksInside host f) (m : Machine)
    (psp : Nat) : loadExeAt host f m psp = none := by
  obtain ⟨e, he⟩ := extenderDetected_some host f
  have hlin := (linearAt_eq hw hno he).2 hlook
  unfold loadExeAt
  rw [if_neg hw.recognised, he, Option.bind_eq_bind, Option.bind_some, hlin]
  rfl

/-- What the relocated image is. -/
theorem loaded_mz (hw : WellFormedMz f h) (k base : Nat) (mem : Mem) :
    Loaded (mzImage f h) (mzTargets f h) k base mem
      (patchWords base k (mzTargets f h) (storeBytes mem base (mzImage f h))) :=
  (loaded_storeBytes mzImage_lt k base mem).patchWords hw.inside hw.apart

/-- **Loading an MZ file.** -/
theorem mzLoads_iff (hw : WellFormedMz f h) (hno : NoLinear f) (m : Machine) {psp : Nat}
    (hpsp : psp + 0x10 < 65536) (hcs : psp + 0x10 + h.cs < 65536) (hss : psp + 0x10 + h.ss < 65536) :
    MzLoads host f h m psp ↔ LooksInside host f := by
  constructor
  · rintro ⟨mem, flag, hload, -⟩
    by_contra hlook
    rw [loadExeAt_outside hw hno hlook] at hload
    cases hload
  · intro hlook
    obtain ⟨flag, hload, -⟩ := loadExeAt_mz hw hno hlook m psp
    have hmz := loadMz_eq hw { m with extenderBound := flag } psp
    rw [Nat.mod_eq_of_lt hpsp, Nat.mod_eq_of_lt hcs, Nat.mod_eq_of_lt hss] at hmz
    exact ⟨_, flag, hload.trans hmz, loaded_mz hw _ _ _⟩

end Loader

/-! ### Two files -/

/-- A header of 32 bytes with the image size and the relocation count, and the entry 0000:0002. -/
def mzFile (size relocs : UInt8) (image : List UInt8) : List UInt8 :=
  [0x4D, 0x5A, 0x20 + size, 0, 1, 0, relocs, 0, 2, 0, 0, 0, 0xFF, 0xFF, 0, 0, 0, 1, 0, 0, 2, 0, 0, 0,
    0x1C, 0, 0, 0, 0, 0, 0, 0] ++ image

/-- Four bytes, the first word of which is relocated. -/
def smallMz : List UInt8 := mzFile 4 1 [0x34, 0x12, 0xB4, 0x4C]

/-- An image of 32 bytes, with FFFFFFFEh at 3Ch of the file. -/
def strayMz : List UInt8 := mzFile 0x20 0 (List.replicate 28 0x90 ++ [0xFE, 0xFF, 0xFF, 0xFF])

def smallHeader (size relocs : Nat) : MzHeader := ⟨0x20 + size, 1, relocs, 2, 0, 0x100, 2, 0, 0x1C⟩

theorem smallMz_wellFormed : WellFormedMz smallMz (smallHeader 4 1) := by
  refine ⟨by decide, by decide, rfl, by decide, by decide, by decide, by decide, by decide, ?_⟩
  exact List.pairwise_singleton _ _

theorem strayMz_wellFormed : WellFormedMz strayMz (smallHeader 0x20 0) := by
  refine ⟨by decide, by decide, rfl, by decide, by decide, by decide, by decide, by decide, ?_⟩
  exact List.Pairwise.nil

theorem mzLoads_iff_small : MzLoads Nesting.tinyHost smallMz (smallHeader 4 1) bootMachine 0x100 := by
  refine (mzLoads_iff smallMz_wellFormed ?_ bootMachine (by decide) (by decide) (by decide)).mpr
    (Or.inr (Or.inl (by decide)))
  intro le hle
  have hnone : rdd smallMz 0x3C = none := by
    decide +kernel
  rw [hnone] at hle
  cases hle

/-- The loader reads byte FFFFFFFEh of a file of 64 bytes. -/
theorem mzLoads_stray : NoLinear strayMz ∧
    ¬ MzLoads Nesting.tinyHost strayMz (smallHeader 0x20 0) bootMachine 0x100 := by
  constructor
  · intro le hle hL
    have hstray : rdd strayMz 0x3C = some 0xFFFFFFFE ∧ byteAt strayMz 0xFFFFFFFE = none := by
      decide +kernel
    rw [hstray.1] at hle
    obtain rfl := Option.some.inj hle
    rw [hstray.2] at hL
    cases hL
  · rintro ⟨mem, flag, hload, -⟩
    have hnone : (loadExeAt Nesting.tinyHost strayMz bootMachine 0x100).isNone = true := by
      decide +kernel
    rw [hload] at hnone
    cases hnone

end Dosiz
