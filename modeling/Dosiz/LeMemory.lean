/-
  Dosiz/LeMemory.lean
  ===================
  **Where the LE loader writes** (`le_load_objects` and `le_apply_fixups` of `bridge.cc`).

  Nothing in the loader compares a page's place with the object's size before it copies,
  or a patch's width with the room behind its offset.  `FileFits` is what the file would
  have to promise.  Under it the loader keeps to the blocks it has allocated: `LoadInv`
  says that the objects loaded so far hold exactly the blocks added since the start, each
  large enough, and that memory changed in the objects, in the headers of the chain and
  in the blocks above 1 MB that were zeroed when they were allocated.
-/
import Dosiz.Le
import Dosiz.ArenaSafety

namespace Dosiz

open ByteMemory Machine Mcb PmArena BlockChain Extents

/-! ### Stores with wrapping addresses -/

theorem storeLin_off (mem : Mem) (a : Nat) (bs : List Nat) :
    AgreesOff { x | ∃ i < bs.length, x = lin (a + i) } mem (storeLin mem a bs) := by
  induction bs generalizing mem a with
  | nil => exact AgreesOff.refl _ _
  | cons b bs ih =>
    refine AgreesOff.trans ((writeb_off mem (lin a) b).mono fun x hx => ?_) ((ih _ _).mono fun x hx => ?_)
    · refine ⟨0, by simp, ?_⟩
      have h₁ := hx.1
      have h₂ := hx.2
      rw [Nat.add_zero]
      omega
    · obtain ⟨i, hi, rfl⟩ := hx
      exact ⟨i + 1, by simpa using hi, by rw [show a + 1 + i = a + (i + 1) by omega]⟩

/-- The addresses of `n` bytes stored one by one from `a` on. -/
def storeAddrs (a n : Nat) : Set Nat := { x | ∃ i < n, x = lin (a + i) }

theorem storeLin_addrs (mem : Mem) (a : Nat) (bs : List Nat) :
    AgreesOff (storeAddrs a bs.length) mem (storeLin mem a bs) := storeLin_off mem a bs

/-- Without wrap-around they lie side by side. -/
theorem storeAddrs_ico {a n : Nat} (h : a + n ≤ 4294967296) : storeAddrs a n = Set.Ico a (a + n) := by
  ext x
  constructor
  · rintro ⟨i, hi, rfl⟩
    rw [lin_of_lt (by omega)]
    exact ⟨by omega, by omega⟩
  · rintro ⟨h₁, h₂⟩
    exact ⟨x - a, by omega, by rw [Nat.add_sub_cancel' h₁, lin_of_lt (by omega)]⟩

theorem storeAddrs_zero (a : Nat) : storeAddrs a 0 = ∅ := by
  ext x
  refine iff_of_false ?_ (Set.notMem_empty x)
  rintro ⟨i, hi, -⟩
  exact absurd hi (Nat.not_lt_zero i)

theorem fillLin_ico (mem : Mem) {a n : Nat} (v : Nat) (h : a + n ≤ 4294967296) :
    AgreesOff (Set.Ico a (a + n)) mem (fillLin mem a n v) := by
  intro x hx
  refine if_neg ?_
  rintro ⟨hlt, hin⟩
  apply hx
  have hn : 0 < n := by omega
  rw [lin_of_lt (show a < 4294967296 by omega)] at hin
  simp only [lin] at hin
  constructor <;> omega

theorem byteAt_lt {f : List UInt8} {off v : Nat} (h : byteAt f off = some v) : v < 256 := by
  simp only [byteAt, Option.map_eq_some_iff] at h
  obtain ⟨b, -, rfl⟩ := h
  exact b.toNat_lt

theorem rdw_lt {f : List UInt8} {off v : Nat} (h : rdw f off = some v) : v < 65536 := by
  simp only [rdw, Option.bind_eq_bind, Option.bind_eq_some_iff] at h
  obtain ⟨lo, hlo, hi, hhi, hv⟩ := h
  cases hv
  have := byteAt_lt hlo
  have := byteAt_lt hhi
  omega

theorem rdd_lt {f : List UInt8} {off v : Nat} (h : rdd f off = some v) : v < 4294967296 := by
  simp only [rdd, Option.bind_eq_bind, Option.bind_eq_some_iff] at h
  obtain ⟨lo, hlo, hi, hhi, hv⟩ := h
  cases hv
  have := rdw_lt hlo
  have := rdw_lt hhi
  omega

namespace Le

/-! ### What the file promises -/

/-- The table entries from number `i` on, `n` of them. -/
def leTable (f : List UInt8) (le : Nat) (h : LeHeader) : Nat → Nat → Option (List LeObject)
  | 0, _ => some []
  | n + 1, i => do
    let o ← readObject f (h.entryOff le i)
    let rest ← leTable f le h n (i + 1)
    return o :: rest

/-- The size of an object is no closer to 4 GB than a paragraph, and no page that is copied goes
    past it. -/
structure ObjectFits (f : List UInt8) (le : Nat) (h : LeHeader) (o : LeObject) : Prop where
  size : o.virtSize ≤ 0xFFFFFFF0
  pages : ∀ p < o.pageCount, ∀ c, pageCopy f le h o p = some c → c.2 ≠ [] →
    c.1 + c.2.length ≤ o.virtSize

/-- Every object of the table fits. -/
def ObjectsFit (f : List UInt8) (le : Nat) : Prop :=
  ∀ h, readHeader f le = some h → ∀ i < h.numObjects, ∀ o, readObject f (h.entryOff le i) = some o →
    ObjectFits f le h o

/-- The patch ends inside its object. -/
def Patch.Fits (p : Patch) : Prop := p.off + p.bytes.length ≤ p.src.virtSize

/-- Every object of the table fits, and every patch the records ask for ends inside its object. -/
structure FileFits (f : List UInt8) (le : Nat) : Prop where
  objects : ∀ h, readHeader f le = some h → ∀ i < h.numObjects, ∀ o,
    readObject f (h.entryOff le i) = some o → ObjectFits f le h o
  patches : ∀ h, readHeader f le = some h → ∀ objects, leTable f le h h.numObjects 0 = some objects →
    ∀ r, leFixups f le objects = some r → ∀ p ∈ r.1, p.Fits

/-! ### The bytes of the objects -/

/-- The bytes of an object, as the loader has placed it. -/
def LeObject.bytes (o : LeObject) : Set Nat := Set.Ico o.hostBase (o.hostBase + o.virtSize)

def objectBytes (objects : List LeObject) : Set Nat := { x | ∃ o ∈ objects, x ∈ o.bytes }

theorem objectBytes_append (objects : List LeObject) (o : LeObject) :
    objectBytes (objects ++ [o]) = objectBytes objects ∪ o.bytes := by
  ext x
  simp [objectBytes, or_and_right, exists_or]

/-- What is written for the pages is where each of them is stored. -/
theorem copyPages_off {f : List UInt8} {le : Nat} {h : LeHeader} {o : LeObject} {S : Set Nat} {n p : Nat}
    (hin : ∀ q, p ≤ q → q < p + n → ∀ c, pageCopy f le h o q = some c →
      storeAddrs (o.hostBase + c.1) c.2.length ⊆ S)
    {mem mem' : Mem} (hc : copyPages f le h o n p mem = some mem') : AgreesOff S mem mem' := by
  induction n generalizing p mem with
  | zero =>
    cases hc
    exact AgreesOff.refl _ _
  | succ n ih =>
    simp only [copyPages, Option.bind_eq_bind, Option.bind_eq_some_iff] at hc
    obtain ⟨c, hcopy, hc⟩ := hc
    have hpage := hin p (Nat.le_refl p) (by omega) c hcopy
    refine ((storeLin_addrs mem (o.hostBase + c.1) c.2).mono hpage).trans (ih ?_ hc)
    intro q h₁ h₂
    exact hin q (by omega) (by omega)

/-- A page that ends in its object is stored there. -/
theorem page_inside {o : LeObject} {c : Nat × List Nat} (hend : o.hostBase + o.virtSize ≤ 4294967296)
    (hfit : c.2 ≠ [] → c.1 + c.2.length ≤ o.virtSize) :
    storeAddrs (o.hostBase + c.1) c.2.length ⊆ o.bytes := by
  by_cases hne : c.2 = []
  · rw [hne, List.length_nil, storeAddrs_zero]
    exact Set.empty_subset _
  · have hin := hfit hne
    rw [storeAddrs_ico (by omega)]
    rintro x ⟨h₁, h₂⟩
    exact ⟨by omega, by omega⟩

theorem bytes_subset {objects : List LeObject} {o : LeObject} (ho : o ∈ objects) :
    o.bytes ⊆ objectBytes objects := fun _ hx => ⟨o, ho, hx⟩

/-- An object as the table has it. -/
def LeObject.onFile (o : LeObject) : LeObject := { o with hostBase := 0, hostSeg := 0, ldtSel := 0 }

/-- The object, the place and the width of a patch. -/
def Patch.shape (p : Patch) : LeObject × Nat × Nat := (p.src.onFile, p.off, p.bytes.length)

def shapes (r : List Patch × Bool) : List (LeObject × Nat × Nat) × Bool := (r.1.map Patch.shape, r.2)

def RecordStep.shape : RecordStep → Option (Nat × Option (LeObject × Nat × Nat))
  | .stop => none
  | .next p patch => some (p, patch.map Patch.shape)

theorem Patch.fits_of_shape {p q : Patch} (h : p.shape = q.shape) (hp : p.Fits) : q.Fits := by
  simp only [Patch.shape, LeObject.onFile, Prod.mk.injEq, LeObject.mk.injEq] at h
  unfold Patch.Fits at hp ⊢
  omega

theorem patchBytes_length (srcType a a' t t' : Nat) (o o' : LeObject) :
    (patchBytes srcType a t o).length = (patchBytes srcType a' t' o').length := by
  unfold patchBytes
  split <;> simp [le16, le32]

section Shapes

variable (f : List UInt8) (le : Nat) (objects : List LeObject)

theorem recordPatch_shape (src : LeObject) (pageOff srcType srcOff tgtObj tgtOff : Nat) :
    (recordPatch (objects.map LeObject.onFile) src.onFile pageOff srcType srcOff tgtObj tgtOff).map
      Patch.shape = (recordPatch objects src pageOff srcType srcOff tgtObj tgtOff).map Patch.shape := by
  unfold recordPatch
  by_cases h0 : tgtObj = 0
  · simp [h0]
  · rw [if_neg h0, if_neg h0, List.getElem?_map]
    cases objects[tgtObj - 1]? with
    | none => rfl
    | some target =>
      have hsize : src.onFile.virtSize = src.virtSize := rfl
      simp only [Option.map_some, hsize]
      generalize lin (pageOff + if 0x8000 ≤ srcOff then srcOff + 4294901760 else srcOff) = off
      split_ifs
      · rfl
      · simp only [Option.map_some, Patch.shape, LeObject.onFile]
        rw [patchBytes_length]

/-- Two computations that go on alike after the same first step come to the same. -/
theorem map_bind_congr {α β γ : Type} {s : β → γ} (x : Option α) {g g' : α → Option β}
    (h : ∀ a, (g a).map s = (g' a).map s) : (x >>= g).map s = (x >>= g').map s := by
  cases x with
  | none => rfl
  | some a => exact h a

theorem leRecord_shape (src : LeObject) (pageOff p : Nat) :
    (leRecord f (objects.map LeObject.onFile) src.onFile pageOff p).map RecordStep.shape =
      (leRecord f objects src pageOff p).map RecordStep.shape := by
  have hnext : ∀ q srcType srcOff tgtObj tgtOff,
      (RecordStep.next q (recordPatch (objects.map LeObject.onFile) src.onFile pageOff srcType srcOff
        tgtObj tgtOff)).shape =
      (RecordStep.next q (recordPatch objects src pageOff srcType srcOff tgtObj tgtOff)).shape := by
    intro q srcType srcOff tgtObj tgtOff
    simp only [RecordStep.shape, recordPatch_shape]
  refine map_bind_congr _ fun srcType => map_bind_congr _ fun tgtFlags => map_bind_congr _ fun srcOff => ?_
  by_cases hstop : tgtFlags % 4 ≠ 0
  · simp only [if_pos hstop]
  by_cases hend : f.length ≤ p + 4
  · simp only [if_neg hstop, if_pos hend]
  simp only [if_neg hstop, if_neg hend]
  refine map_bind_congr _ fun tgtObj => ?_
  by_cases hsel : srcType % 16 = 2
  · simp only [if_pos hsel]
    exact congrArg some (hnext _ _ _ _ _)
  simp only [if_neg hsel]
  split_ifs <;> first
    | rfl
    | exact map_bind_congr _ fun tgtOff => congrArg some (hnext _ _ _ _ _)

/-- Patches put in front of what comes later. -/
theorem prepend_shapes (ps : List Patch) (z : Option (List Patch × Bool)) :
    (z >>= fun rest => some (ps ++ rest.1, rest.2)).map shapes =
      (z.map shapes).map fun s => (ps.map Patch.shape ++ s.1, s.2) := by
  cases z with
  | none => rfl
  | some rest => simp [shapes]

theorem leRecords_shape (src : LeObject) (pageOff pEnd fuel p : Nat) :
    (leRecords f (objects.map LeObject.onFile) src.onFile pageOff pEnd fuel p).map shapes =
      (leRecords f objects src pageOff pEnd fuel p).map shapes := by
  induction fuel generalizing p with
  | zero => rfl
  | succ fuel ih =>
    have hrec := leRecord_shape f objects src pageOff p
    simp only [leRecords]
    by_cases hin : ¬ (p + 5 ≤ pEnd ∧ p + 5 ≤ f.length)
    · rw [if_pos hin, if_pos hin]
    rw [if_neg hin, if_neg hin]
    generalize leRecord f (objects.map LeObject.onFile) src.onFile pageOff p = x at hrec
    generalize leRecord f objects src pageOff p = y at hrec
    cases x with
    | none =>
      cases y with
      | none => rfl
      | some b => cases hrec
    | some a =>
      cases y with
      | none => cases hrec
      | some b =>
        have hab : a.shape = b.shape := Option.some.inj hrec
        cases a with
        | stop =>
          cases b with
          | stop => rfl
          | next q patch => cases hab
        | next q patch =>
          cases b with
          | stop => cases hab
          | next q' patch' =>
            simp only [RecordStep.shape, Option.some.injEq, Prod.mk.injEq] at hab
            obtain ⟨rfl, hpatch⟩ := hab
            have hlist : patch.toList.map Patch.shape = patch'.toList.map Patch.shape := by
              rw [← Option.toList_map, ← Option.toList_map, hpatch]
            refine (prepend_shapes patch.toList _).trans (Eq.trans ?_ (prepend_shapes patch'.toList _).symm)
            rw [ih, hlist]

theorem findObjForPage_map (page : Nat) :
    findObjForPage (objects.map LeObject.onFile) page = (findObjForPage objects page).map LeObject.onFile := by
  unfold findObjForPage
  rw [List.find?_map]
  rfl

/-- Two computations whose first steps have the same shapes. -/
theorem bind_shapes {x y : Option (List Patch × Bool)} (hxy : x.map shapes = y.map shapes)
    {g g' : List Patch × Bool → Option (List Patch × Bool)}
    (hg : ∀ a b, shapes a = shapes b → (g a).map shapes = (g' b).map shapes) :
    (x >>= g).map shapes = (y >>= g').map shapes := by
  cases x with
  | none =>
    cases y with
    | none => rfl
    | some b => cases hxy
  | some a =>
    cases y with
    | none => cases hxy
    | some b => exact hg a b (Option.some.inj hxy)

theorem lePages_shape (t : FixupTables) (n pg : Nat) :
    (lePages f le t (objects.map LeObject.onFile) n pg).map shapes =
      (lePages f le t objects n pg).map shapes := by
  induction n generalizing pg with
  | zero => rfl
  | succ n ih =>
    simp only [lePages, findObjForPage_map]
    split_ifs with hcut
    · rfl
    refine map_bind_congr _ fun recStart => map_bind_congr _ fun recEnd => ?_
    by_cases hback : recEnd < recStart
    · rw [if_pos hback, if_pos hback]
    rw [if_neg hback, if_neg hback]
    by_cases hnone : recStart = recEnd
    · simp only [if_pos hnone]
      exact ih _
    simp only [if_neg hnone]
    cases findObjForPage objects (pg + 1) with
    | none => exact ih _
    | some src =>
      dsimp only [Option.map_some]
      have hpage : src.onFile.firstPage = src.firstPage := rfl
      rw [hpage]
      generalize lin ((pg + 1 + 4294967296 - src.firstPage) * t.pageSize) = pageOff
      have hrec := leRecords_shape f objects src pageOff (le + t.recTbl + recEnd) f.length
        (le + t.recTbl + recStart)
      refine bind_shapes hrec fun a b hab => ?_
      have hok : a.2 = b.2 := congrArg (fun s => s.2) hab
      have hlist : a.1.map Patch.shape = b.1.map Patch.shape := congrArg (fun s => s.1) hab
      by_cases hb : b.2 = true
      · rw [if_pos (hok.trans hb), if_pos hb]
        refine (prepend_shapes a.1 _).trans (Eq.trans ?_ (prepend_shapes b.1 _).symm)
        rw [ih, hlist]
      · rw [if_neg (by rw [hok]; exact hb), if_neg hb]
        exact congrArg some hab

theorem leFixups_shape :
    (leFixups f le (objects.map LeObject.onFile)).map shapes = (leFixups f le objects).map shapes := by
  refine map_bind_congr _ fun t => ?_
  split_ifs
  · rfl
  · exact lePages_shape f le objects t _ _

end Shapes

/-- Where the patches asked for on the table's objects fit, those on the loaded objects do. -/
theorem patches_fit {f : List UInt8} {le : Nat} {objects : List LeObject} {r : List Patch × Bool}
    (h : ∀ r, leFixups f le (objects.map LeObject.onFile) = some r → ∀ p ∈ r.1, p.Fits)
    (hr : leFixups f le objects = some r) : ∀ p ∈ r.1, p.Fits := by
  intro p hp
  have hshape := leFixups_shape f le objects
  rw [hr, Option.map_some, Option.map_eq_some_iff] at hshape
  obtain ⟨r', hr', heq⟩ := hshape
  have hmem : p.shape ∈ r'.1.map Patch.shape := by
    rw [show r'.1.map Patch.shape = r.1.map Patch.shape from congrArg (fun s => s.1) heq]
    exact List.mem_map_of_mem hp
  obtain ⟨q, hq, hqp⟩ := List.mem_map.mp hmem
  exact Patch.fits_of_shape hqp (h r' hr' q hq)

/-! ### Patches start in the objects -/

/-- A patch starts in the object of its page and has six bytes at most. -/
theorem recordPatch_spec {objects : List LeObject} {src : LeObject} {pageOff srcType srcOff tgtObj
    tgtOff : Nat} {p : Patch} (h : recordPatch objects src pageOff srcType srcOff tgtObj tgtOff = some p) :
    p.src = src ∧ p.off < src.virtSize ∧ p.bytes.length ≤ 6 := by
  unfold recordPatch at h
  split at h
  · cases h
  · generalize lin (pageOff + if 0x8000 ≤ srcOff then srcOff + 4294901760 else srcOff) = off at h
    dsimp only at h
    split at h
    · cases h
    · cases h
      refine ⟨rfl, by dsimp only; omega, ?_⟩
      dsimp only
      unfold patchBytes
      split <;> simp [le16, le32]

section Records

variable {f : List UInt8} {objects : List LeObject} {Q : Patch → Prop}

/-- What holds of the patches of every record holds of the patches of all. -/
theorem leRecord_patch {src : LeObject} {pageOff p q : Nat} {patch : Option Patch}
    (hQ : ∀ srcType srcOff tgtObj tgtOff a,
      recordPatch objects src pageOff srcType srcOff tgtObj tgtOff = some a → Q a)
    (h : leRecord f objects src pageOff p = some (.next q patch)) : ∀ a ∈ patch, Q a := by
  simp only [leRecord, Option.bind_eq_bind, Option.bind_eq_some_iff] at h
  obtain ⟨srcType, -, tgtFlags, -, srcOff, -, h⟩ := h
  generalize (if decide (tgtFlags / 64 % 2 = 1) = true then 2 else 1) = unit at h
  generalize (if decide (tgtFlags / 16 % 2 = 1) = true then 4 else 2) = width at h
  split at h
  · cases h
  split at h
  · cases h
  obtain ⟨tgtObj, -, h⟩ := Option.bind_eq_some_iff.mp h
  split at h
  · cases h
    intro a ha
    exact hQ _ _ _ _ a ha
  split at h
  · cases h
  obtain ⟨tgtOff, -, h⟩ := Option.bind_eq_some_iff.mp h
  cases h
  intro a ha
  exact hQ _ _ _ _ a ha

theorem leRecords_patch {src : LeObject} {pageOff pEnd fuel p : Nat} {r : List Patch × Bool}
    (hQ : ∀ srcType srcOff tgtObj tgtOff a,
      recordPatch objects src pageOff srcType srcOff tgtObj tgtOff = some a → Q a)
    (h : leRecords f objects src pageOff pEnd fuel p = some r) : ∀ a ∈ r.1, Q a := by
  induction fuel generalizing p r with
  | zero =>
    cases h
    intro a ha
    cases ha
  | succ fuel ih =>
    simp only [leRecords] at h
    split at h
    · cases h
      intro a ha
      cases ha
    · obtain ⟨step, hstep, h⟩ := Option.bind_eq_some_iff.mp h
      cases step with
      | stop =>
        cases h
        intro a ha
        cases ha
      | next q patch =>
        obtain ⟨rest, hrest, h⟩ := Option.bind_eq_some_iff.mp h
        cases h
        intro a ha
        rcases List.mem_append.mp ha with ha | ha
        · exact leRecord_patch hQ hstep a (Option.mem_toList.mp ha)
        · exact ih hrest a ha

theorem lePages_patch {le : Nat} {t : FixupTables} {n pg : Nat} {r : List Patch × Bool}
    (hQ : ∀ src ∈ objects, ∀ pageOff srcType srcOff tgtObj tgtOff a,
      recordPatch objects src pageOff srcType srcOff tgtObj tgtOff = some a → Q a)
    (h : lePages f le t objects n pg = some r) : ∀ a ∈ r.1, Q a := by
  induction n generalizing pg r with
  | zero =>
    cases h
    intro a ha
    cases ha
  | succ n ih =>
    simp only [lePages] at h
    split at h
    · cases h
      intro a ha
      cases ha
    obtain ⟨recStart, -, h⟩ := Option.bind_eq_some_iff.mp h
    obtain ⟨recEnd, -, h⟩ := Option.bind_eq_some_iff.mp h
    split at h
    · cases h
      intro a ha
      cases ha
    split at h
    · exact ih h
    · rename_i src hsrc
      have hmem : src ∈ objects := by
        split at hsrc
        · cases hsrc
        · exact List.mem_of_find?_eq_some hsrc
      obtain ⟨recs, hrecs, h⟩ := Option.bind_eq_some_iff.mp h
      have hin := leRecords_patch (hQ src hmem _) hrecs
      split at h
      · obtain ⟨rest, hrest, h⟩ := Option.bind_eq_some_iff.mp h
        cases h
        intro a ha
        rcases List.mem_append.mp ha with ha | ha
        · exact hin a ha
        · exact ih hrest a ha
      · cases h
        exact hin

end Records

theorem leFixups_patch {f : List UInt8} {le : Nat} {objects : List LeObject} {r : List Patch × Bool}
    (h : leFixups f le objects = some r) :
    ∀ a ∈ r.1, a.src ∈ objects ∧ a.off < a.src.virtSize ∧ a.bytes.length ≤ 6 := by
  obtain ⟨t, -, h⟩ := Option.bind_eq_some_iff.mp h
  split at h
  · cases h
    intro a ha
    cases ha
  · refine lePages_patch ?_ h
    intro src hsrc pageOff srcType srcOff tgtObj tgtOff a ha
    obtain ⟨hsame, hoff, hlen⟩ := recordPatch_spec ha
    rw [hsame]
    exact ⟨hsrc, hoff, hlen⟩

/-! ### Allocating on an initialised chain -/

/-- Carving a block keeps every header where it is. -/
theorem headerBytes_carve (pre post : List (Block Nat)) (b : Block Nat) (need : Nat) :
    headerBytes (pre ++ b :: post) ⊆ headerBytes (pre ++ carve 0 need ⟨PSP_SEG, b.size⟩ ++ post) := by
  rintro x ⟨q, c, hm, hx⟩
  obtain ⟨n, rest, -, hcarve⟩ := carve_tag need PSP_SEG b
  have hspan : span (carve 0 need ⟨PSP_SEG, b.size⟩) = span [b] := by
    rw [span_carve]
    simp
  have hm' : (q, c) ∈ place MCB_ARENA_START (pre ++ [b] ++ post) := by simpa using hm
  rcases (mem_place_append₃ pre [b] post).mp hm' with h | h | h
  · exact ⟨q, c, (mem_place_append₃ _ _ _).mpr (Or.inl h), hx⟩
  · simp only [place, List.mem_singleton, Prod.mk.injEq] at h
    refine ⟨q, ⟨PSP_SEG, n⟩, (mem_place_append₃ _ _ _).mpr (Or.inr (Or.inl ?_)), hx⟩
    rw [hcarve, h.1]
    exact List.mem_cons_self
  · refine ⟨q, c, (mem_place_append₃ _ _ _).mpr (Or.inr (Or.inr ?_)), hx⟩
    rw [hspan]
    exact h

/-- `mcb_allocate` with a chain in place: nothing happens, or one block is added. -/
theorem mcbAllocate_chain {m : Machine} (hi : m.mcbInitialised = true) {bs : List (Block Nat)}
    (hc : Chain m.mem bs) (need : Nat) :
    (∃ largest, mcbAllocate m need = some (m, 0, largest)) ∨
      ∃ mem bs' seg b largest, mcbAllocate m need = some (m.setMem mem, seg, largest) ∧ seg ≠ 0 ∧
        Chain mem bs' ∧ need ≤ b.size ∧ (∀ c, ¬ Allocated bs (seg - 1) c) ∧
        (∀ q c, Allocated bs' q c ↔ Allocated bs q c ∨ (q = seg - 1 ∧ c = b)) ∧
        headerBytes bs ⊆ headerBytes bs' ∧ AgreesOff (headerBytes bs') m.mem mem := by
  have hready : mcbReady m = m := if_pos hi
  unfold mcbAllocate
  rw [hready]
  rcases mcbAllocateIn_chain hc need with
    ⟨mem, pre, b, post, rfl, hfree, hneed, ⟨largest, halloc⟩, hc', hoff, -⟩ | ⟨halloc, -⟩
  · right
    simp only [halloc]
    refine ⟨mem, _, _, ⟨PSP_SEG, carvedSize need b.size⟩, largest, rfl, by omega, hc',
      carvedSize_ge hneed, ?_, fun q c => allocated_alloc hfree need q c, headerBytes_carve pre post b need,
      hoff⟩
    rintro c ⟨hm, htag⟩
    rw [place_inj hm (mem_place_mid pre post b)] at htag
    exact htag hfree
  · left
    simp only [halloc]
    exact ⟨_, rfl⟩

/-! ### What loading has changed -/

/-- The blocks above 1 MB that `m` has and `m₀` had not. -/
def highBytes (m₀ m : Machine) : Set Nat :=
  { x | ∃ e ∈ m.pmBusy, e ∉ m₀.pmBusy ∧ x ∈ Set.Ico e.base e.stop }

/-- Where memory may differ from the start. -/
def loadedBytes (m₀ m : Machine) (bs : List (Block Nat)) (objects : List LeObject) : Set Nat :=
  objectBytes objects ∪ headerBytes bs ∪ highBytes m₀ m

/-- An object below 1 MB: a block of the chain that was not there at the start. -/
structure LowObject (bs₀ bs : List (Block Nat)) (o : LeObject) : Prop where
  base : o.hostBase = o.hostSeg * 16
  fresh : ∀ c, ¬ Allocated bs₀ (o.hostSeg - 1) c
  room : ∃ b, Allocated bs (o.hostSeg - 1) b ∧ o.virtSize ≤ b.size * 16

/-- The objects loaded since `m₀` hold exactly the blocks added since. -/
structure LoadInv (m₀ : Machine) (bs₀ : List (Block Nat)) (m : Machine) (bs : List (Block Nat))
    (objects : List LeObject) : Prop where
  frame : m = { m₀ with
    mem := m.mem
    pmBusy := m.pmBusy
    pmInitialised := m.pmInitialised
    pmEnd := m.pmEnd }
  init : m₀.mcbInitialised = true
  pm : PmOk m
  chain : Chain m.mem bs
  mono : ∀ q b, Allocated bs₀ q b → Allocated bs q b
  only : ∀ q b, Allocated bs q b → Allocated bs₀ q b ∨ ∃ o ∈ objects, o.hostSeg = q + 1
  low : ∀ o ∈ objects, o.hostSeg ≠ 0 → LowObject bs₀ bs o
  apart : objects.Pairwise fun o o' => o'.hostSeg ≠ 0 → o.hostSeg ≠ o'.hostSeg
  high : ∃ new, m.pmBusy.Perm (m₀.pmBusy ++ new) ∧
    List.Forall₂ (fun e o => e.base = o.hostBase ∧ o.virtSize ≤ e.size) new
      (objects.filter fun o => o.hostSeg = 0)
  headers : headerBytes bs₀ ⊆ headerBytes bs
  off : AgreesOff (loadedBytes m₀ m bs objects) m₀.mem m.mem

theorem LoadInv.start {m : Machine} {bs : List (Block Nat)} (hi : m.mcbInitialised = true)
    (hp : PmOk m) (hc : Chain m.mem bs) : LoadInv m bs m bs [] where
  frame := rfl
  init := hi
  pm := hp
  chain := hc
  mono := fun _ _ h => h
  only := fun _ _ h => Or.inl h
  low := fun o ho => absurd ho (by simp)
  apart := List.Pairwise.nil
  high := ⟨[], by simp, List.Forall₂.nil⟩
  headers := fun _ h => h
  off := AgreesOff.refl _ _

section Inv

variable {m₀ m : Machine} {bs₀ bs : List (Block Nat)} {objects : List LeObject}

theorem LoadInv.initialised (h : LoadInv m₀ bs₀ m bs objects) : m.mcbInitialised = true := by
  rw [h.frame]
  exact h.init

theorem forall₂_mem_right {α β : Type} {R : α → β → Prop} {xs : List α} {ys : List β}
    (h : List.Forall₂ R xs ys) {y : β} (hy : y ∈ ys) : ∃ x ∈ xs, R x y := by
  induction h with
  | nil => cases hy
  | cons hr _ ih =>
    rcases List.mem_cons.mp hy with rfl | hy
    · exact ⟨_, List.mem_cons_self, hr⟩
    · obtain ⟨x, hx, hr⟩ := ih hy
      exact ⟨x, List.mem_cons_of_mem _ hx, hr⟩

/-- A block added to a packed list was not in it. -/
theorem not_mem_of_added {lo hi grain : Nat} {old new busy : List PmBlock} {e : PmBlock}
    (hp : Packed lo hi grain busy) (hperm : busy.Perm (old ++ new)) (he : e ∈ new) : e ∉ old := by
  intro hold
  have hpk := hp.perm hperm
  have hap := (List.pairwise_append.mp hpk.apart).2.2 e hold e he
  have hpos := (hpk.fits e (List.mem_append_right _ he)).pos
  simp only [Apart, Extent.stop] at hap
  omega

/-- The bytes of an object lie in its block: in the arena behind a header, or above 1 MB. -/
theorem LoadInv.object_place (h : LoadInv m₀ bs₀ m bs objects) {o : LeObject} (ho : o ∈ objects) :
    (∃ b, Allocated bs (o.hostSeg - 1) b ∧ o.hostSeg ≠ 0 ∧ o.bytes ⊆
        Set.Ico (o.hostSeg * 16) ((o.hostSeg + b.size) * 16)) ∨
      ∃ e ∈ m.pmBusy, e ∉ m₀.pmBusy ∧ o.bytes ⊆ Set.Ico e.base e.stop := by
  by_cases hseg : o.hostSeg = 0
  · right
    obtain ⟨new, hperm, hnew⟩ := h.high
    obtain ⟨e, he, hbase, hsize⟩ := forall₂_mem_right hnew
      (List.mem_filter.mpr ⟨ho, by simpa using hseg⟩)
    refine ⟨e, hperm.mem_iff.mpr (List.mem_append_right _ he), not_mem_of_added h.pm.packed hperm he, ?_⟩
    rintro x ⟨h₁, h₂⟩
    exact ⟨by omega, by simp only [Extent.stop]; omega⟩
  · left
    obtain ⟨hbase, -, b, hb, hroom⟩ := h.low o ho hseg
    refine ⟨b, hb, hseg, ?_⟩
    rintro x ⟨h₁, h₂⟩
    rw [hbase] at h₁ h₂
    exact ⟨h₁, by rw [Nat.add_mul]; omega⟩

/-- Addresses of a block of the arena, or above 1 MB, are `uint32_t`s. -/
theorem LoadInv.object_end (h : LoadInv m₀ bs₀ m bs objects) {o : LeObject} (ho : o ∈ objects) :
    o.hostBase + o.virtSize ≤ 4294967296 := by
  by_cases hseg : o.hostSeg = 0
  · obtain ⟨new, hperm, hnew⟩ := h.high
    obtain ⟨e, he, hbase, hsize⟩ := forall₂_mem_right hnew
      (List.mem_filter.mpr ⟨ho, by simpa using hseg⟩)
    have hfit := (h.pm.packed.fits e (hperm.mem_iff.mpr (List.mem_append_right _ he))).high
    have hhigh := h.pm.high
    simp only [Extent.stop] at hfit
    omega
  · obtain ⟨hbase, -, b, hb, hroom⟩ := h.low o ho hseg
    have hbound := place_bounds hb.1
    have htiles := h.chain.tiles
    simp only [MCB_ARENA_START, MCB_ARENA_END] at hbound htiles
    omega

/-- A store in the objects that are loaded. -/
theorem LoadInv.store (h : LoadInv m₀ bs₀ m bs objects) {mem : Mem}
    (hoff : AgreesOff (objectBytes objects) m.mem mem) : LoadInv m₀ bs₀ (m.setMem mem) bs objects where
  frame := by
    rw [h.frame]
    rfl
  init := h.init
  pm := ⟨h.pm.packed, h.pm.high, h.pm.fresh⟩
  chain := by
    refine h.chain.frame hoff ?_
    rintro x ⟨o, ho, hx⟩
    rcases h.object_place ho with ⟨b, hb, hseg, hin⟩ | ⟨e, he, -, hin⟩
    · obtain ⟨h₁, h₂⟩ := hin hx
      refine not_headerBytes_of_data hb.1 ?_ ?_
      · rw [Nat.sub_add_cancel (by omega)]
        exact h₁
      · rw [Nat.sub_add_cancel (by omega)]
        exact h₂
    · have hlow := (h.pm.packed.fits e he).low
      obtain ⟨h₁, h₂⟩ := hin hx
      refine headerBytes_inside h.chain ?_
      simp only [PM_ARENA_START] at hlow
      simp only [outsideArena, MCB_ARENA_START, MCB_ARENA_END, Set.mem_ofPred_eq]
      omega
  mono := h.mono
  only := h.only
  low := h.low
  apart := h.apart
  high := h.high
  headers := h.headers
  off := h.off.trans (hoff.mono fun x hx => Or.inl (Or.inl hx))

/-- A new block of the chain. -/
theorem LoadInv.addLow (h : LoadInv m₀ bs₀ m bs objects) {o : LeObject} {bs' : List (Block Nat)}
    {mem : Mem} {b : Block Nat} (hseg : o.hostSeg ≠ 0) (hbase : o.hostBase = o.hostSeg * 16)
    (hc : Chain mem bs') (hroom : o.virtSize ≤ b.size * 16) (hfresh : ∀ c, ¬ Allocated bs (o.hostSeg - 1) c)
    (halloc : ∀ q c, Allocated bs' q c ↔ Allocated bs q c ∨ (q = o.hostSeg - 1 ∧ c = b))
    (hsub : headerBytes bs ⊆ headerBytes bs') (hoff : AgreesOff (headerBytes bs') m.mem mem) :
    LoadInv m₀ bs₀ (m.setMem mem) bs' (objects ++ [o]) where
  frame := by
    rw [h.frame]
    rfl
  init := h.init
  pm := ⟨h.pm.packed, h.pm.high, h.pm.fresh⟩
  chain := hc
  mono := fun q c hq => (halloc q c).mpr (Or.inl (h.mono q c hq))
  only := by
    intro q c hq
    rcases (halloc q c).mp hq with hq | ⟨rfl, -⟩
    · rcases h.only q c hq with hq | ⟨o', ho', hseg'⟩
      · exact Or.inl hq
      · exact Or.inr ⟨o', List.mem_append_left _ ho', hseg'⟩
    · exact Or.inr ⟨o, by simp, by omega⟩
  low := by
    intro o' ho' hseg'
    rcases List.mem_append.mp ho' with ho' | ho'
    · obtain ⟨h₁, h₂, c, hc, h₃⟩ := h.low o' ho' hseg'
      exact ⟨h₁, h₂, c, (halloc _ _).mpr (Or.inl hc), h₃⟩
    · rw [List.mem_singleton.mp ho']
      exact ⟨hbase, fun c hc => hfresh c (h.mono _ c hc), b, (halloc _ _).mpr (Or.inr ⟨rfl, rfl⟩), hroom⟩
  apart := by
    refine List.pairwise_append.mpr ⟨h.apart, List.pairwise_singleton _ _, fun o' ho' o'' ho'' _ heq => ?_⟩
    rw [List.mem_singleton.mp ho''] at heq
    obtain ⟨-, -, c, hc, -⟩ := h.low o' ho' (by rw [heq]; exact hseg)
    rw [heq] at hc
    exact hfresh c hc
  high := by
    obtain ⟨new, hperm, hnew⟩ := h.high
    refine ⟨new, hperm, ?_⟩
    simpa [List.filter_append, hseg] using hnew
  headers := h.headers.trans hsub
  off := by
    refine (h.off.mono ?_).trans (hoff.mono fun x hx => Or.inl (Or.inr hx))
    rintro x ((hx | hx) | hx)
    · refine Or.inl (Or.inl ?_)
      rw [objectBytes_append]
      exact Or.inl hx
    · exact Or.inl (Or.inr (hsub hx))
    · exact Or.inr hx

/-- `pm_alloc` changes memory and its own globals. -/
theorem pmAlloc_globals (m : Machine) (bytes : Nat) : (pmAlloc m bytes).1 = { m with
    mem := (pmAlloc m bytes).1.mem
    pmBusy := (pmAlloc m bytes).1.pmBusy
    pmInitialised := (pmAlloc m bytes).1.pmInitialised
    pmEnd := (pmAlloc m bytes).1.pmEnd } := by
  obtain ⟨mem, busy, hf⟩ := pmAlloc_frame m bytes
  rw [hf]
  unfold pmInit
  split_ifs <;> rfl

/-- A request above 1 MB that is refused, and one that is served. -/
theorem LoadInv.addHigh (h : LoadInv m₀ bs₀ m bs objects) {bytes : Nat} (hb : bytes < 4294967296) :
    ((pmAlloc m bytes).2 = 0 ∧ LoadInv m₀ bs₀ (pmAlloc m bytes).1 bs objects) ∨
      ((pmAlloc m bytes).2 ≠ 0 ∧ ∀ o : LeObject, o.hostSeg = 0 → o.hostBase = (pmAlloc m bytes).2 →
        o.virtSize ≤ bytes → LoadInv m₀ bs₀ (pmAlloc m bytes).1 bs (objects ++ [o])) := by
  obtain ⟨hok, hcase⟩ := pmAlloc_spec h.pm hb
  have hglobals := pmAlloc_globals m bytes
  have hframe : (pmAlloc m bytes).1 = { m₀ with
      mem := (pmAlloc m bytes).1.mem
      pmBusy := (pmAlloc m bytes).1.pmBusy
      pmInitialised := (pmAlloc m bytes).1.pmInitialised
      pmEnd := (pmAlloc m bytes).1.pmEnd } := by
    rw [hglobals, h.frame]
  obtain ⟨new, hperm, hnew⟩ := h.high
  rcases hcase with ⟨hzero, hbusy, hmem⟩ | ⟨e, he, hsize, -, hbusy, hfit, hoff⟩
  · refine Or.inl ⟨hzero, hframe, h.init, hok, ?_, h.mono, h.only, h.low, h.apart,
      ⟨new, hbusy.trans hperm, hnew⟩, h.headers, ?_⟩
    · rw [hmem]
      exact h.chain
    · rw [hmem]
      refine h.off.mono ?_
      rintro x (hx | ⟨e, he, hx⟩)
      · exact Or.inl hx
      · exact Or.inr ⟨e, hbusy.mem_iff.mpr he, hx⟩
  · right
    have hlow := hfit.low
    simp only [PM_ARENA_START] at hlow
    refine ⟨by omega, fun o hseg hbase hvirt => ⟨hframe, h.init, hok, ?_, h.mono, ?_, ?_, ?_, ?_, h.headers,
      ?_⟩⟩
    · refine h.chain.frame hoff fun x hx => headerBytes_inside h.chain ?_
      have := hx.1
      simp only [outsideArena, MCB_ARENA_START, MCB_ARENA_END, Set.mem_ofPred_eq]
      omega
    · intro q c hq
      rcases h.only q c hq with hq | ⟨o', ho', hseg'⟩
      · exact Or.inl hq
      · exact Or.inr ⟨o', List.mem_append_left _ ho', hseg'⟩
    · intro o' ho' hseg'
      rcases List.mem_append.mp ho' with ho' | ho'
      · exact h.low o' ho' hseg'
      · rw [List.mem_singleton.mp ho'] at hseg'
        exact absurd hseg hseg'
    · refine List.pairwise_append.mpr ⟨h.apart, List.pairwise_singleton _ _, fun o' _ o'' ho'' hseg' => ?_⟩
      rw [List.mem_singleton.mp ho''] at hseg'
      exact absurd hseg hseg'
    · refine ⟨new ++ [e], ?_, ?_⟩
      · rw [← List.append_assoc]
        exact hbusy.trans (hperm.append_right _)
      · rw [List.filter_append]
        refine List.rel_append hnew ?_
        rw [List.filter_cons_of_pos (by simpa using hseg)]
        exact List.Forall₂.cons ⟨by rw [hbase, he], by omega⟩ List.Forall₂.nil
    · refine (h.off.mono ?_).trans (hoff.mono fun x hx => Or.inr ⟨e, ?_, ?_, hx⟩)
      · rintro x ((hx | hx) | ⟨e', he', hx⟩)
        · refine Or.inl (Or.inl ?_)
          rw [objectBytes_append]
          exact Or.inl hx
        · exact Or.inl (Or.inr hx)
        · exact Or.inr ⟨e', hbusy.mem_iff.mpr (List.mem_append_left _ he'), hx⟩
      · exact hbusy.mem_iff.mpr (by simp)
      · have hadded : (pmAlloc m bytes).1.pmBusy.Perm (m₀.pmBusy ++ (new ++ [e])) := by
          rw [← List.append_assoc]
          exact hbusy.trans (hperm.append_right _)
        exact not_mem_of_added hok.packed hadded (by simp)

/-- A block for an object of `n` bytes, or none; the block is large enough unless `n` is closer to 4 GB
    than a paragraph. -/
theorem LoadInv.allocate (h : LoadInv m₀ bs₀ m bs objects) {n : Nat} (hn : n < 4294967296)
    {r : Machine × Nat × Nat} (hr : leAllocate m n = some r) :
    (r.2.2 = 0 ∧ LoadInv m₀ bs₀ r.1 bs objects) ∨ (r.2.2 ≠ 0 ∧ (n ≤ 0xFFFFFFF0 → ∃ bs', ∀ o : LeObject,
      o.virtSize = n → o.hostSeg = r.2.1 → o.hostBase = r.2.2 → LoadInv m₀ bs₀ r.1 bs' (objects ++ [o]))) := by
  obtain ⟨a, ha, hr⟩ := leAllocate_cases hr
  have hhigh : ∀ k, n ≤ k → k < 4294967296 → r = ((pmAlloc m k).1, 0, (pmAlloc m k).2) →
      (r.2.2 = 0 ∧ LoadInv m₀ bs₀ r.1 bs objects) ∨ (r.2.2 ≠ 0 ∧ (n ≤ 0xFFFFFFF0 → ∃ bs', ∀ o : LeObject,
        o.virtSize = n → o.hostSeg = r.2.1 → o.hostBase = r.2.2 → LoadInv m₀ bs₀ r.1 bs' (objects ++ [o]))) := by
    rintro k hk hlt rfl
    rcases h.addHigh hlt with hno | ⟨hne, hyes⟩
    · exact Or.inl hno
    · exact Or.inr ⟨hne, fun _ => ⟨bs, fun o hvirt hseg hbase => hyes o hseg hbase (by omega)⟩⟩
  have hbig : n ≤ (if n ≠ 0 then n else 16) ∧ (if n ≠ 0 then n else 16) < 4294967296 := by
    split_ifs <;> omega
  -- without a block in the arena the request goes above 1 MB
  have hlow : a = (m, 0) ∨ ∃ mem bs' b, a.2 ≠ 0 ∧ a.1 = m.setMem mem ∧ Chain mem bs' ∧
      (n ≤ 0xFFFFFFF0 → n ≤ b.size * 16) ∧ (∀ c, ¬ Allocated bs (a.2 - 1) c) ∧
      (∀ q c, Allocated bs' q c ↔ Allocated bs q c ∨ (q = a.2 - 1 ∧ c = b)) ∧
      headerBytes bs ⊆ headerBytes bs' ∧ AgreesOff (headerBytes bs') m.mem mem := by
    have hparas : ∃ paras, (n ≤ 0xFFFFFFF0 → n ≤ paras * 16) ∧ leAllocateLow m n =
        if paras ≤ 0xFFFF then (mcbAllocate m paras).map fun r => (r.1, r.2.1) else some (m, 0) := by
      refine ⟨_, fun hn => ?_, rfl⟩
      rw [lin_of_lt (show n + 15 < 4294967296 by omega)]
      split_ifs <;> omega
    obtain ⟨paras, hle, hparas⟩ := hparas
    rw [hparas] at ha
    split_ifs at ha with hfits
    · rcases mcbAllocate_chain h.initialised h.chain paras with
        ⟨largest, hno⟩ | ⟨mem, bs', seg, b, largest, hyes, hseg, hc, hneed, hfresh, halloc, hsub, hoff⟩
      · rw [hno] at ha
        exact Or.inl (Option.some.inj ha).symm
      · rw [hyes] at ha
        cases ha
        exact Or.inr ⟨mem, bs', b, hseg, rfl, hc, fun hn => by have := hle hn; omega, hfresh, halloc, hsub, hoff⟩
    · exact Or.inl (Option.some.inj ha).symm
  rcases hr with ⟨hseg, rfl⟩ | ⟨hseg, rfl⟩
  · rcases hlow with rfl | ⟨mem, bs', b, -, hm, hc, hroom, hfresh, halloc, hsub, hoff⟩
    · exact absurd rfl hseg
    · refine Or.inr ⟨by dsimp only; omega, fun hn => ⟨bs', fun o hvirt hsg hbase => ?_⟩⟩
      have hroom := hroom hn
      dsimp only at hsg hbase ⊢
      rw [hm]
      rw [← hsg] at hfresh halloc hseg hbase
      exact h.addLow hseg hbase hc (by omega) hfresh halloc hsub hoff
  · rcases hlow with rfl | ⟨mem, bs', b, hne, -⟩
    · exact hhigh _ hbig.1 hbig.2 rfl
    · exact absurd hseg hne

theorem readObject_size {f : List UInt8} {e : Nat} {o : LeObject} (h : readObject f e = some o) :
    o.virtSize < 4294967296 := by
  obtain ⟨v, hv, hrest⟩ := Option.bind_eq_some_iff.mp h
  have hlt := rdd_lt hv
  simp only [Option.bind_eq_bind, Option.bind_eq_some_iff] at hrest
  obtain ⟨_, -, _, -, _, -, _, -, hobj⟩ := hrest
  cases hobj
  exact hlt

theorem readObject_fields {f : List UInt8} {e : Nat} {o : LeObject} (h : readObject f e = some o) :
    o.hostBase = 0 ∧ o.hostSeg = 0 ∧ o.ldtSel = 0 := by
  simp only [readObject, Option.bind_eq_bind, Option.bind_eq_some_iff] at h
  obtain ⟨_, -, _, -, _, -, _, -, _, -, h⟩ := h
  cases h
  exact ⟨rfl, rfl, rfl⟩

theorem onFile_placed {f : List UInt8} {e seg base : Nat} {o : LeObject} (h : readObject f e = some o) :
    LeObject.onFile { o with hostSeg := seg, hostBase := base } = o := by
  obtain ⟨h₁, h₂, h₃⟩ := readObject_fields h
  cases o
  simp only at h₁ h₂ h₃
  simp [LeObject.onFile, h₁, h₂, h₃]

/-- A loaded object is a table entry with a place. -/
theorem leLoadObject_placed {f : List UInt8} {le i : Nat} {hd : LeHeader} {r : Machine × Option LeObject}
    {o : LeObject} (hr : leLoadObject f le hd i m = some r) (ho : r.2 = some o) :
    ∃ o₀ a, readObject f (hd.entryOff le i) = some o₀ ∧
      o = { o₀ with hostSeg := (a : Machine × Nat × Nat).2.1, hostBase := a.2.2 } := by
  rcases leLoadObject_cases hr with ⟨rfl, -⟩ | ⟨o₀, a, ho₀, -, ⟨-, rfl⟩ | ⟨-, o', mem, rfl, -, rfl⟩⟩
  · cases ho
  · cases ho
  · cases ho
    exact ⟨o₀, a, ho₀, rfl⟩

/-- One more object, or none and the blocks as they were: its size is no closer to 4 GB than a
    paragraph, and what is stored for its pages lies in the objects. -/
theorem LoadInv.loadObject_within (h : LoadInv m₀ bs₀ m bs objects) {f : List UInt8} {le i : Nat} {hd : LeHeader}
    {r : Machine × Option LeObject} (hr : leLoadObject f le hd i m = some r)
    (hsize : r.2 ≠ none → ∀ o, readObject f (hd.entryOff le i) = some o → o.virtSize ≤ 0xFFFFFFF0)
    (hpages : ∀ o, r.2 = some o → o.hostBase + o.virtSize ≤ 4294967296 → ∀ p < o.pageCount, ∀ c,
      pageCopy f le hd o p = some c → storeAddrs (o.hostBase + c.1) c.2.length ⊆ objectBytes (objects ++ [o])) :
    (r.2 = none ∧ LoadInv m₀ bs₀ r.1 bs objects) ∨
      ∃ o bs', r.2 = some o ∧ readObject f (hd.entryOff le i) = some o.onFile ∧
        LoadInv m₀ bs₀ r.1 bs' (objects ++ [o]) := by
  rcases leLoadObject_cases hr with ⟨rfl, -⟩ | ⟨o, a, ho, ha, hcase⟩
  · exact Or.inl ⟨rfl, h⟩
  · rcases h.allocate (readObject_size ho) ha with ⟨hzero, hinv⟩ | ⟨hne, hinv⟩
    · rcases hcase with ⟨-, rfl⟩ | ⟨hne, -⟩
      · exact Or.inl ⟨rfl, hinv⟩
      · exact absurd hzero hne
    · rcases hcase with ⟨hzero, -⟩ | ⟨-, o', mem, rfl, hcopy, rfl⟩
      · exact absurd hzero hne
      · right
        obtain ⟨bs', hinv⟩ := hinv (hsize (Option.some_ne_none _) o ho)
        have hadded := hinv { o with hostSeg := a.2.1, hostBase := a.2.2 } rfl rfl rfl
        have hmem : { o with hostSeg := a.2.1, hostBase := a.2.2 } ∈
            objects ++ [{ o with hostSeg := a.2.1, hostBase := a.2.2 }] := by simp
        have hend := hadded.object_end hmem
        refine ⟨_, bs', rfl, ?_, hadded.store ?_⟩
        · rw [onFile_placed ho]
          exact ho
        · refine ((fillLin_ico a.1.mem 0 hend).mono (bytes_subset hmem)).trans (copyPages_off ?_ hcopy)
          intro p _ hp
          exact hpages _ rfl hend p (by omega)

/-- The same of an object that fits. -/
theorem LoadInv.loadObject (h : LoadInv m₀ bs₀ m bs objects) {f : List UInt8} {le i : Nat} {hd : LeHeader}
    (hfit : ∀ o, readObject f (hd.entryOff le i) = some o → ObjectFits f le hd o)
    {r : Machine × Option LeObject} (hr : leLoadObject f le hd i m = some r) :
    (r.2 = none ∧ LoadInv m₀ bs₀ r.1 bs objects) ∨
      ∃ o bs', r.2 = some o ∧ readObject f (hd.entryOff le i) = some o.onFile ∧
        LoadInv m₀ bs₀ r.1 bs' (objects ++ [o]) := by
  refine h.loadObject_within hr (fun _ o ho => (hfit o ho).size) ?_
  intro o ho hend p hp c hc
  obtain ⟨o₀, a, hread, rfl⟩ := leLoadObject_placed hr ho
  exact (page_inside hend ((hfit o₀ hread).pages p hp c hc)).trans (bytes_subset (by simp))

/-- The objects of the table from number `i` on. -/
theorem LoadInv.loadFrom {f : List UInt8} {le : Nat} {hd : LeHeader}
    (hfit : ∀ i < hd.numObjects, ∀ o, readObject f (hd.entryOff le i) = some o → ObjectFits f le hd o)
    {n i : Nat} (hn : i + n ≤ hd.numObjects) (h : LoadInv m₀ bs₀ m bs objects)
    {r : Machine × List LeObject × Bool} (hr : leLoadFrom f le hd n i m objects = some r) :
    ∃ bs', LoadInv m₀ bs₀ r.1 bs' r.2.1 ∧ (r.2.2 = true → ∃ table, leTable f le hd n i = some table ∧
      r.2.1.map LeObject.onFile = objects.map LeObject.onFile ++ table) := by
  induction n generalizing i m bs objects with
  | zero =>
    cases hr
    exact ⟨bs, h, fun _ => ⟨[], rfl, by simp⟩⟩
  | succ n ih =>
    simp only [leLoadFrom, Option.bind_eq_bind, Option.bind_eq_some_iff] at hr
    obtain ⟨⟨m', o⟩, ho, hr⟩ := hr
    rcases h.loadObject (hfit i (by omega)) ho with ⟨hnone, hinv⟩ | ⟨o', bs', hsome, hread, hinv⟩
    · cases hnone
      cases hr
      exact ⟨bs, hinv, fun hok => absurd hok (by simp)⟩
    · cases hsome
      obtain ⟨bs'', hend, htable⟩ := ih (by omega) hinv hr
      refine ⟨bs'', hend, fun hok => ?_⟩
      obtain ⟨table, htab, hmap⟩ := htable hok
      refine ⟨o'.onFile :: table, ?_, ?_⟩
      · simp only [leTable, Option.bind_eq_bind, hread, Option.bind_some, htab, Option.pure_def]
      · rw [hmap]
        simp

end Inv

/-! ### The blocks there were before -/

section Others

variable {m₀ m : Machine} {bs₀ bs : List (Block Nat)} {objects : List LeObject}

/-- A block of the chain that was there before is none of the bytes that changed. -/
theorem LoadInv.keepsLow (h : LoadInv m₀ bs₀ m bs objects) {q : Nat} {b : Block Nat}
    (ha : Allocated bs₀ q b) {x : Nat} (h₁ : (q + 1) * 16 ≤ x) (h₂ : x < (q + 1 + b.size) * 16) :
    m.mem x = m₀.mem x := by
  have hnow := h.mono q b ha
  have hbound := place_bounds hnow.1
  have htiles := h.chain.tiles
  have hlow : ∀ e ∈ m.pmBusy, x ∉ Set.Ico e.base e.stop := by
    intro e he hx
    have hfit := (h.pm.packed.fits e he).low
    have := hx.1
    simp only [PM_ARENA_START] at hfit
    simp only [MCB_ARENA_START, MCB_ARENA_END] at hbound htiles
    omega
  refine h.off x ?_
  rintro ((⟨o, ho, hx⟩ | hx) | ⟨e, he, -, hx⟩)
  · rcases h.object_place ho with ⟨c, hc, hseg, hin⟩ | ⟨e, he, -, hin⟩
    · obtain ⟨h₃, h₄⟩ := hin hx
      rcases place_disjoint hnow.1 hc.1 with ⟨heq, -⟩ | hlt | hlt
      · rw [heq] at ha
        exact (h.low o ho hseg).fresh b ha
      · omega
      · omega
    · exact hlow e he (hin hx)
  · exact not_headerBytes_of_data hnow.1 h₁ h₂ hx
  · exact hlow e he hx

/-- Nor is a block above 1 MB. -/
theorem LoadInv.keepsHigh (h : LoadInv m₀ bs₀ m bs objects) {e : PmBlock} (he : e ∈ m₀.pmBusy) {x : Nat}
    (hx : x ∈ Set.Ico e.base e.stop) : m.mem x = m₀.mem x := by
  obtain ⟨new, hperm, -⟩ := h.high
  have hpk := h.pm.packed.perm hperm
  have hfit := (hpk.fits e (List.mem_append_left _ he)).low
  simp only [PM_ARENA_START] at hfit
  have hbase := hx.1
  have hnew : ∀ e' ∈ m.pmBusy, e' ∉ m₀.pmBusy → x ∉ Set.Ico e'.base e'.stop := by
    intro e' he' hne hx'
    rcases List.mem_append.mp (hperm.mem_iff.mp he') with hold | hadded
    · exact hne hold
    · have hap := (List.pairwise_append.mp hpk.apart).2.2 e he e' hadded
      have := hx.2
      have := hx'.1
      have := hx'.2
      simp only [Apart] at hap
      omega
  have hhigh : x ∉ headerBytes bs := by
    refine headerBytes_inside h.chain ?_
    simp only [outsideArena, MCB_ARENA_START, MCB_ARENA_END, Set.mem_ofPred_eq]
    omega
  refine h.off x ?_
  rintro ((⟨o, ho, hx'⟩ | hx') | ⟨e', he', hne, hx'⟩)
  · rcases h.object_place ho with ⟨c, hc, hseg, hin⟩ | ⟨e', he', hne, hin⟩
    · have hbound := place_bounds hc.1
      have htiles := h.chain.tiles
      have := (hin hx').2
      simp only [MCB_ARENA_START, MCB_ARENA_END] at hbound htiles
      omega
    · exact hnew e' he' hne (hin hx')
  · exact hhigh hx'
  · exact hnew e' he' hne hx'

end Others

/-! ### The descriptors leave the objects where they are -/

/-- An object without its selector. -/
def LeObject.unsel (o : LeObject) : LeObject := { o with ldtSel := 0 }

theorem installDescriptors_unsel (objects : List LeObject) (idx : Nat) (m : Machine) :
    (installDescriptors idx objects m).2.map LeObject.unsel = objects.map LeObject.unsel := by
  induction objects generalizing idx m with
  | nil => rfl
  | cons o objects ih =>
    simp only [installDescriptors, List.map_cons, ih]
    rfl

theorem leInstallDescriptors_unsel {m d : Machine} {objects objects' : List LeObject}
    (h : leInstallDescriptors m objects = some (d, objects')) :
    objects'.map LeObject.unsel = objects.map LeObject.unsel := by
  simp only [leInstallDescriptors] at h
  split at h
  · cases h
  · cases h
    rw [List.map_append, installDescriptors_unsel, ← List.map_append, List.take_append_drop]

theorem map_onFile_of_unsel {objects objects' : List LeObject}
    (h : objects'.map LeObject.unsel = objects.map LeObject.unsel) :
    objects'.map LeObject.onFile = objects.map LeObject.onFile := by
  have hcomp : LeObject.onFile = LeObject.onFile ∘ LeObject.unsel := rfl
  rw [hcomp, ← List.map_map, h, List.map_map]

/-- Objects that differ in their selectors occupy the same bytes. -/
theorem bytes_of_unsel {objects objects' : List LeObject}
    (h : objects'.map LeObject.unsel = objects.map LeObject.unsel) {o' : LeObject} (ho' : o' ∈ objects') :
    ∃ o ∈ objects, o.hostBase = o'.hostBase ∧ o.virtSize = o'.virtSize := by
  have hmem : o'.unsel ∈ objects.map LeObject.unsel := by
    rw [← h]
    exact List.mem_map_of_mem ho'
  obtain ⟨o, ho, heq⟩ := List.mem_map.mp hmem
  simp only [LeObject.unsel, LeObject.mk.injEq] at heq
  exact ⟨o, ho, heq.2.2.2.2.2.1, heq.2.1⟩

/-! ### The whole table -/

/-- The state after `le_load_objects`, with the chain in place before it. -/
theorem leLoadObjects_inv {f : List UInt8} {le : Nat} (hfit : ObjectsFit f le) {m : Machine}
    (hi : m.mcbInitialised = true) (hp : PmOk m) {bs₀ : List (Block Nat)} (hc : Chain m.mem bs₀)
    {r : Machine × List LeObject × Bool} (hr : leLoadObjects f le m = some r) :
    ∃ bs, LoadInv m bs₀ r.1 bs r.2.1 ∧ (r.2.2 = true → ∃ hd table, readHeader f le = some hd ∧
      leTable f le hd hd.numObjects 0 = some table ∧ r.2.1.map LeObject.onFile = table) := by
  obtain ⟨hd, hhd, hr⟩ := Option.bind_eq_some_iff.mp hr
  obtain ⟨bs, hinv, htable⟩ := (LoadInv.start hi hp hc).loadFrom (hfit hd hhd)
    (Nat.le_of_eq (Nat.zero_add _)) hr
  refine ⟨bs, hinv, fun hok => ?_⟩
  obtain ⟨table, htab, hmap⟩ := htable hok
  exact ⟨hd, table, hhd, htab, by simpa using hmap⟩

/-! ### Two small files -/

/-- A file of `n` bytes, all zero but the ones given. -/
def leFile (n : Nat) (bytes : List (Nat × UInt8)) : List UInt8 :=
  (List.range n).map fun i => (bytes.lookup i).getD 0

/-- An MZ stub, and a header at 40h with one object and one page. -/
def leStub : List (Nat × UInt8) :=
  [(0x00, 0x4D), (0x01, 0x5A), (0x3C, 0x40), (0x40, 0x4C), (0x41, 0x45), (0x54, 1), (0x58, 1), (0x60, 1),
    (0x69, 0x10), (0x80, 0xB0), (0x84, 1), (0x88, 0xC8)]

end Le

end Dosiz
