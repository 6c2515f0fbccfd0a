/-
  Dosiz/LeFixups.lean
  ===================
  **The fixups of an LE program** (`le_apply_fixups` of `bridge.cc`).

  The records of a page stand one behind the other, each as long as its flags say.  The loop
  reads an internal reference of any layout, and leaves it out alone if it cannot be applied.
  A record of another reference type is to be skipped as well, but the branch returns, and the
  caller goes on: `fixupsApplied_iff`.
-/
import Dosiz.LeStack

namespace Dosiz.Le

open ByteMemory Machine Mcb

/-! ### Bytes of the file -/

/-- The `n` low bytes of a number, the lowest first. -/
def leBytes : Nat → Nat → List Nat
  | 0, _ => []
  | n + 1, v => v % 256 :: leBytes n (v / 256)

theorem leBytes_length : ∀ n v, (leBytes n v).length = n
  | 0, _ => rfl
  | n + 1, v => congrArg (· + 1) (leBytes_length n (v / 256))

theorem leBytes_two (v : Nat) : leBytes 2 v = le16 v := rfl

theorem leBytes_four (v : Nat) : leBytes 4 v = le32 v := by
  simp only [leBytes, le32, le16, Nat.div_div_eq_div_mul, List.cons_append, List.nil_append, Nat.reduceMul]

/-- Only the value modulo 2³² counts. -/
theorem leBytes_lin {n : Nat} (h : n ≤ 4) (v : Nat) : leBytes n (lin v) = leBytes n v := by
  unfold lin
  rcases n with _ | _ | _ | _ | _ | n
  · rfl
  all_goals simp only [leBytes, List.cons.injEq, and_true]
  · omega
  · omega
  · omega
  · omega
  · omega

/-- The bytes `bs` stand in the file from `p` on. -/
def FileHolds (f : List UInt8) (p : Nat) (bs : List Nat) : Prop :=
  ∀ (i b : Nat), bs[i]? = some b → byteAt f (p + i) = some b

theorem fileHolds_cons {f : List UInt8} {p b : Nat} {bs : List Nat} :
    FileHolds f p (b :: bs) ↔ byteAt f p = some b ∧ FileHolds f (p + 1) bs := by
  constructor
  · intro h
    refine ⟨h 0 b rfl, fun i c hc => ?_⟩
    rw [Nat.add_assoc, Nat.add_comm 1]
    exact h (i + 1) c hc
  · rintro ⟨h₀, h⟩ i c hc
    cases i with
    | zero =>
      cases hc
      exact h₀
    | succ i =>
      rw [Nat.add_comm i, ← Nat.add_assoc]
      exact h i c hc

theorem fileHolds_append {f : List UInt8} {p : Nat} {as bs : List Nat} :
    FileHolds f p (as ++ bs) ↔ FileHolds f p as ∧ FileHolds f (p + as.length) bs := by
  induction as generalizing p with
  | nil =>
    rw [List.nil_append, List.length_nil, Nat.add_zero]
    exact ⟨fun h => ⟨fun i b hb => by simp at hb, h⟩, And.right⟩
  | cons a as ih =>
    rw [List.cons_append, fileHolds_cons, fileHolds_cons, ih, and_assoc, List.length_cons,
      Nat.add_assoc p 1, Nat.add_comm 1]

theorem FileHolds.rdw {f : List UInt8} {p v : Nat} (h : FileHolds f p (le16 v)) (hv : v < 65536) :
    rdw f p = some v := by
  simp only [le16, fileHolds_cons] at h
  obtain ⟨h₀, h₁, -⟩ := h
  simp only [Dosiz.rdw, h₀, h₁, Option.bind_eq_bind, Option.bind_some, Option.pure_def, Option.some.injEq]
  omega

theorem FileHolds.rdd {f : List UInt8} {p v : Nat} (h : FileHolds f p (le32 v)) (hv : v < 4294967296) :
    rdd f p = some v := by
  obtain ⟨hlo, hhi⟩ := fileHolds_append.mp h
  have hlo' : Dosiz.rdw f p = some (v % 65536) := by
    refine FileHolds.rdw ?_ (Nat.mod_lt _ (by decide))
    rw [show le16 (v % 65536) = le16 v by simp only [le16, List.cons.injEq, and_true]; omega]
    exact hlo
  have hhi' : Dosiz.rdw f (p + 2) = some (v / 65536) := hhi.rdw (by omega)
  simp only [Dosiz.rdd, hlo', hhi', Option.bind_eq_bind, Option.bind_some, Option.pure_def, Option.some.injEq]
  omega

/-- What stands in the file ends in the file. -/
theorem FileHolds.le_length {f : List UInt8} {p : Nat} {bs : List Nat} (h : FileHolds f p bs)
    (hne : bs ≠ []) : p + bs.length ≤ f.length := by
  have hpos := List.length_pos_iff.mpr hne
  have hlast := h (bs.length - 1) _ (List.getElem?_eq_getElem (by omega))
  by_contra hlt
  have hnone : f[p + (bs.length - 1)]? = none := List.getElem?_eq_none (by omega)
  rw [byteAt, hnone] at hlast
  cases hlast

/-! ### Records -/

/-- An internal reference with one source and no additive value: its fields, of the widths the flags give. -/
structure InternalRef where
  srcType : Nat
  flags : Nat
  srcOff : Nat
  tgtObj : Nat
  tgtOff : Nat
  single : srcType < 256 ∧ srcType / 32 % 2 = 0
  plain : flags < 256 ∧ flags % 8 = 0
  srcOff_lt : srcOff < 65536
  tgtObj_lt : tgtObj < if flags / 64 % 2 = 1 then 65536 else 256
  tgtOff_lt : tgtOff < if srcType % 16 = 2 then 1 else if flags / 16 % 2 = 1 then 4294967296 else 65536

namespace InternalRef

variable (r : InternalRef)

/-- The object number is a byte or a word, the offset nothing, a word or a dword. -/
def bytes : List Nat :=
  [r.srcType, r.flags] ++ (le16 r.srcOff ++ ((if r.flags / 64 % 2 = 1 then le16 r.tgtObj else [r.tgtObj]) ++
    if r.srcType % 16 = 2 then [] else if r.flags / 16 % 2 = 1 then le32 r.tgtOff else le16 r.tgtOff))

/-- The source's offset in its object: 32 bits with a sign, and an offset in the page with 16. -/
def sourceOff (pageOff : Nat) : Int :=
  (pageOff + (if r.srcOff < 0x8000 then (r.srcOff : Int) else r.srcOff - 0x10000)).bmod 4294967296

/-- The value the source type defines for a source at `src`: the target's address, its low word or byte, the
    distance from behind the source, the selector, or an offset with the selector. -/
def value (src : Nat) (target : LeObject) : Option (List Nat) :=
  match r.srcType % 16 with
  | 0x00 => some (leBytes 1 (target.hostBase + r.tgtOff))
  | 0x02 => some (leBytes 2 target.ldtSel)
  | 0x03 => some (leBytes 2 r.tgtOff ++ leBytes 2 target.ldtSel)
  | 0x05 => some (leBytes 2 (target.hostBase + r.tgtOff))
  | 0x06 => some (leBytes 4 r.tgtOff ++ leBytes 2 target.ldtSel)
  | 0x07 => some (leBytes 4 (target.hostBase + r.tgtOff))
  | 0x08 => some (leBytes 4 (((target.hostBase + r.tgtOff : Int) - (src + 4)) % 4294967296).toNat)
  | _ => none

/-- What the record asks for: nothing if the target, the source or the source type is out of range. -/
def patch (objects : List LeObject) (src : LeObject) (pageOff : Nat) : Option Patch :=
  match (if r.tgtObj = 0 then none else objects[r.tgtObj - 1]?) with
  | none => none
  | some target =>
    if 0 ≤ r.sourceOff pageOff ∧ r.sourceOff pageOff < src.virtSize then
      (r.value (src.hostBase + (r.sourceOff pageOff).toNat) target).map fun bytes =>
        ⟨src, (r.sourceOff pageOff).toNat, bytes⟩
    else none

end InternalRef

/-- A record of a fixup list: an internal reference, or the bytes of a record of another reference type, or
    of one with a list of sources or an additive value. -/
inductive Fixup where
  | internal (r : InternalRef)
  | foreign (bytes : List Nat) (long : 5 ≤ bytes.length) (type : ∃ flags, bytes[1]? = some flags ∧ flags % 4 ≠ 0)
  | extended (bytes : List Nat) (long : 5 ≤ bytes.length)

namespace Fixup

def bytes : Fixup → List Nat
  | internal r => r.bytes
  | foreign bs _ _ => bs
  | extended bs _ => bs

def isInternal : Fixup → Bool
  | internal _ => true
  | _ => false

def isForeign : Fixup → Bool
  | foreign _ _ _ => true
  | _ => false

end Fixup

/-- A record of a page, with the object that owns the page, and the page's place in it. -/
structure Sited where
  src : LeObject
  pageOff : Nat
  fixup : Fixup

/-- A record that is no internal reference asks for nothing. -/
def Sited.patch (objects : List LeObject) (s : Sited) : Option Patch :=
  match s.fixup with
  | .internal r => r.patch objects s.src s.pageOff
  | _ => none

/-- The place of page `pg` (from 0) in the object. -/
def pageOffset (t : FixupTables) (src : LeObject) (pg : Nat) : Nat :=
  lin ((pg + 1 + 4294967296 - src.firstPage) * t.pageSize)

/-- The records of the pages that objects own, page by page, the first page being number `pg`. -/
def sited (objects : List LeObject) (t : FixupTables) : Nat → List (List Fixup) → List Sited
  | _, [] => []
  | pg, l :: lists =>
    (match findObjForPage objects (pg + 1) with
    | none => []
    | some src => l.map (⟨src, pageOffset t src pg, ·⟩)) ++ sited objects t (pg + 1) lists

/-- The bytes of a list. -/
def listBytes (l : List Fixup) : List Nat := l.flatMap Fixup.bytes

/-- The list of page `pg`: its two table entries say where it begins and ends; offsets in the table have
    32 bits. -/
structure PageList (f : List UInt8) (le : Nat) (t : FixupTables) (pg : Nat) (l : List Fixup) : Prop where
  place : ∃ start, rdd f (le + t.pageTbl + lin (pg * 4)) = some start ∧
    rdd f (le + t.pageTbl + lin ((pg + 1) * 4)) = some (start + (listBytes l).length) ∧
    FileHolds f (le + t.recTbl + start) (listBytes l)

/-- The fixup lists of a file, one for each page. -/
structure FixupLists (f : List UInt8) (le : Nat) (t : FixupTables) (lists : List (List Fixup)) : Prop where
  tables : readFixupTables f le = some t
  count : lists.length = t.numPages
  absent : t.pageTbl = 0 ∨ t.recTbl = 0 → ∀ l ∈ lists, l = []
  present : t.pageTbl ≠ 0 → t.recTbl ≠ 0 → ∀ (pg : Nat) (l : List Fixup), lists[pg]? = some l → PageList f le t pg l

/-! ### One record -/

/-- A patch that stores something. -/
def Patch.stores (p : Patch) : Bool := p.bytes ≠ []

theorem le16_ne_nil (v : Nat) : le16 v ≠ [] := List.cons_ne_nil _ _

theorem le32_ne_nil (v : Nat) : le32 v ≠ [] := List.cons_ne_nil _ _

/-- The bytes of a patch are the value of the source type, in 32-bit arithmetic. -/
theorem patchBytes_value (r : InternalRef) (src : Nat) (target : LeObject) :
    r.value src target =
      if patchBytes r.srcType (lin src) r.tgtOff target = [] then none
      else some (patchBytes r.srcType (lin src) r.tgtOff target) := by
  have hrel : (((target.hostBase + r.tgtOff : Int) - (src + 4)) % 4294967296).toNat =
      lin (lin (target.hostBase + r.tgtOff) + 4294967296 - lin (lin src + 4)) := by
    unfold lin
    omega
  have hlow := leBytes_lin (n := 2) (by decide) (target.hostBase + r.tgtOff)
  have hlong := leBytes_lin (n := 4) (by decide) (target.hostBase + r.tgtOff)
  have hbyte : leBytes 1 (target.hostBase + r.tgtOff) = [lin (target.hostBase + r.tgtOff) % 256] :=
    (leBytes_lin (n := 1) (by decide) _).symm
  simp only [leBytes_two, leBytes_four] at hlow hlong
  unfold InternalRef.value patchBytes
  dsimp only
  rw [hrel]
  have htype : r.srcType % 16 < 16 := Nat.mod_lt _ (by decide)
  generalize r.srcType % 16 = s at htype
  interval_cases s <;>
    simp only [leBytes_two, leBytes_four, hlow, hlong, hbyte, le16_ne_nil, le32_ne_nil, if_false, if_true,
      List.append_eq_nil_iff, and_self, List.cons_ne_nil]

/-- The sum of the offsets, a `uint32_t`, is the offset with a sign. -/
theorem InternalRef.sourceOff_eq (r : InternalRef) (pageOff : Nat) :
    r.sourceOff pageOff =
      if lin (pageOff + if 0x8000 ≤ r.srcOff then r.srcOff + 4294901760 else r.srcOff) < 0x80000000 then
        (lin (pageOff + if 0x8000 ≤ r.srcOff then r.srcOff + 4294901760 else r.srcOff) : Int)
      else
        (lin (pageOff + if 0x8000 ≤ r.srcOff then r.srcOff + 4294901760 else r.srcOff) : Int) - 4294967296 := by
  have hlt := r.srcOff_lt
  unfold InternalRef.sourceOff Int.bmod lin
  dsimp only
  push_cast
  split_ifs <;> omega

/-- What the code makes of an internal reference is what the record asks for. -/
theorem recordPatch_stores (objects : List LeObject) (src : LeObject) (pageOff : Nat) (r : InternalRef) :
    (recordPatch objects src pageOff r.srcType r.srcOff r.tgtObj r.tgtOff).filter Patch.stores =
      r.patch objects src pageOff := by
  have hoff := r.sourceOff_eq pageOff
  unfold recordPatch InternalRef.patch
  generalize (if r.tgtObj = 0 then none else objects[r.tgtObj - 1]?) = target
  cases target with
  | none => rfl
  | some target =>
    dsimp only
    have hlt : lin (pageOff + if 0x8000 ≤ r.srcOff then r.srcOff + 4294901760 else r.srcOff) < 4294967296 :=
      Nat.mod_lt _ (by decide)
    generalize lin (pageOff + if 0x8000 ≤ r.srcOff then r.srcOff + 4294901760 else r.srcOff) = off at hoff hlt
    generalize r.sourceOff pageOff = o at hoff
    by_cases hout : 0x80000000 ≤ off ∨ src.virtSize ≤ off
    · have hout' : ¬ (0 ≤ o ∧ o < src.virtSize) := by
        split_ifs at hoff <;> omega
      rw [if_pos hout, if_neg hout']
      rfl
    · obtain ⟨hlow, hin⟩ := not_or.mp hout
      rw [if_pos (Nat.lt_of_not_le hlow)] at hoff
      have hin' : 0 ≤ o ∧ o < src.virtSize := by omega
      have hnat : o.toNat = off := by omega
      rw [if_neg hout, if_pos hin', hnat, patchBytes_value]
      generalize patchBytes r.srcType (lin (src.hostBase + off)) r.tgtOff target = bytes
      by_cases hnil : bytes = [] <;> simp [Patch.stores, hnil]

section Parse

variable {f : List UInt8} {objects : List LeObject} {src : LeObject} {pageOff p : Nat}

/-- An internal reference is read whatever its layout, and the cursor stands behind it. -/
theorem leRecord_internal (r : InternalRef) (h : FileHolds f p r.bytes) :
    leRecord f objects src pageOff p = some (.next (p + r.bytes.length)
      (recordPatch objects src pageOff r.srcType r.srcOff r.tgtObj r.tgtOff)) := by
  have hlen := h.le_length (List.cons_ne_nil _ _)
  have hplain := r.plain
  have hsrc := r.srcOff_lt
  have hobj := r.tgtObj_lt
  have htgt := r.tgtOff_lt
  obtain ⟨hhead, htail⟩ := fileHolds_append.mp h
  simp only [fileHolds_cons] at hhead
  obtain ⟨htype, hflags, -⟩ := hhead
  obtain ⟨hword, htail⟩ := fileHolds_append.mp htail
  obtain ⟨hunit, hoffset⟩ := fileHolds_append.mp htail
  have hsrcOff : rdw f (p + 2) = some r.srcOff := hword.rdw hsrc
  rw [InternalRef.bytes] at hlen
  -- behind the object number
  have hwidth : (if r.flags / 64 % 2 = 1 then le16 r.tgtObj else [r.tgtObj]).length =
      if decide (r.flags / 64 % 2 = 1) then 2 else 1 := by
    by_cases hwide : r.flags / 64 % 2 = 1
    · simp only [hwide, if_true, decide_true]
      rfl
    · simp only [hwide, if_false, decide_false, Bool.false_eq_true]
      rfl
  have hobject : readUnit f (decide (r.flags / 64 % 2 = 1)) (p + 4) = some r.tgtObj := by
    unfold readUnit
    by_cases hwide : r.flags / 64 % 2 = 1
    · simp only [hwide, if_true, decide_true] at hunit hobj ⊢
      exact hunit.rdw hobj
    · simp only [hwide, if_false, decide_false, Bool.false_eq_true] at hunit ⊢
      exact (fileHolds_cons.mp hunit).1
  have hone : 1 ≤ if decide (r.flags / 64 % 2 = 1) then 2 else 1 := by
    split <;> omega
  rw [InternalRef.bytes]
  simp only [List.length_append, hwidth, show (le16 r.srcOff).length = 2 from rfl, List.length_cons,
    List.length_nil] at hlen hoffset ⊢
  unfold leRecord
  simp only [htype, hflags, hsrcOff, hobject, Option.bind_eq_bind, Option.bind_some,
    if_neg (show ¬ f.length ≤ p + 4 by omega), if_neg (show ¬ r.flags % 4 ≠ 0 by omega)]
  generalize (if decide (r.flags / 64 % 2 = 1) then 2 else 1) = width at hlen hoffset
  by_cases hselector : r.srcType % 16 = 2
  · rw [if_pos hselector] at htgt
    rw [if_pos hselector, if_pos hselector, Nat.lt_one_iff.mp htgt, List.length_nil]
    congr 2
    omega
  · rw [if_neg hselector] at htgt hoffset hlen
    rw [if_neg hselector, if_neg hselector]
    by_cases hlongOff : r.flags / 16 % 2 = 1
    · rw [if_pos hlongOff] at htgt hoffset hlen
      have hread : readOffset f true (p + 4 + width) = some r.tgtOff := hoffset.rdd htgt
      simp only [hlongOff, decide_true, if_true, hread, Option.bind_some]
      rw [show (le32 r.tgtOff).length = 4 from rfl] at hlen ⊢
      rw [if_neg (by omega)]
      congr 2
      omega
    · rw [if_neg hlongOff] at htgt hoffset hlen
      have hread : readOffset f false (p + 4 + width) = some r.tgtOff := hoffset.rdw htgt
      simp only [hlongOff, decide_false, Bool.false_eq_true, if_false, hread, Option.bind_some]
      rw [show (le16 r.tgtOff).length = 2 from rfl] at hlen ⊢
      rw [if_neg (by omega)]
      congr 2
      omega

/-- A record of another reference type ends the loop. -/
theorem leRecord_foreign {bs : List Nat} (hlong : 5 ≤ bs.length)
    (htype : ∃ flags, bs[1]? = some flags ∧ flags % 4 ≠ 0) (h : FileHolds f p bs) :
    leRecord f objects src pageOff p = some .stop := by
  obtain ⟨flags, hflags, hne⟩ := htype
  have h₀ := h 0 _ (List.getElem?_eq_getElem (by omega))
  have h₁ := h 1 flags hflags
  have h₂ := h 2 _ (List.getElem?_eq_getElem (by omega))
  have h₃ := h 3 _ (List.getElem?_eq_getElem (by omega))
  rw [Nat.add_zero] at h₀
  simp only [leRecord, rdw, h₀, h₁, h₂, h₃, Nat.add_assoc, Nat.reduceAdd, Option.bind_eq_bind, Option.bind_some,
    Option.pure_def, hne, ne_eq, not_false_eq_true, if_true]

end Parse

theorem Fixup.five_le (x : Fixup) : 5 ≤ x.bytes.length := by
  cases x with
  | internal r =>
    simp only [Fixup.bytes, InternalRef.bytes, List.length_append, List.length_cons, le16]
    split <;> simp only [List.length_cons] <;> omega
  | foreign bs long type => exact long
  | extended bs long => exact long

theorem listBytes_cons (x : Fixup) (l : List Fixup) : listBytes (x :: l) = x.bytes ++ listBytes l :=
  List.flatMap_cons

/-- The first record that is no internal reference is of another reference type. -/
def Readable (l : List Sited) : Prop :=
  ∀ pre s post, l = pre ++ s :: post → (∀ x ∈ pre, x.fixup.isInternal) → s.fixup.isInternal ∨ s.fixup.isForeign

/-- Behind a record of another reference type no record asks for a patch. -/
def NothingBehind (objects : List LeObject) (l : List Sited) : Prop :=
  ∀ pre s post, l = pre ++ s :: post → s.fixup.isForeign → ∀ x ∈ post, x.patch objects = none

/-- How far the records `l` are read: to the end, or to the first of another reference type; and what the
    patches `ps` store. -/
inductive Reading (objects : List LeObject) : List Sited → List Patch → Bool → Prop where
  | all {l ps} (internal : ∀ s ∈ l, s.fixup.isInternal)
      (patches : ps.filter Patch.stores = l.filterMap (Sited.patch objects)) : Reading objects l ps true
  | stopped {pre s post ps} (internal : ∀ x ∈ pre, x.fixup.isInternal) (foreign : s.fixup.isForeign)
      (patches : ps.filter Patch.stores = pre.filterMap (Sited.patch objects)) :
      Reading objects (pre ++ s :: post) ps false

namespace Reading

variable {objects : List LeObject} {l l' : List Sited} {ps ps' : List Patch} {ok : Bool}

theorem nil : Reading objects [] [] true := all (by simp) rfl

/-- One page is read to its end, and then the next ones. -/
theorem append (h : Reading objects l ps true) (h' : Reading objects l' ps' ok) :
    Reading objects (l ++ l') (ps ++ ps') ok := by
  cases h with
  | all internal patches =>
    cases h' with
    | all internal' patches' =>
      refine all (fun s hs => ?_) ?_
      · exact (List.mem_append.mp hs).elim (internal s) (internal' s)
      · rw [List.filter_append, patches, patches', List.filterMap_append]
    | @stopped pre s post _ internal' foreign patches' =>
      rw [← List.append_assoc]
      refine stopped (fun x hx => ?_) foreign ?_
      · exact (List.mem_append.mp hx).elim (internal x) (internal' x)
      · rw [List.filter_append, patches, patches', List.filterMap_append]

/-- What follows a stop is not read. -/
theorem stay (h : Reading objects l ps false) (l' : List Sited) : Reading objects (l ++ l') ps false := by
  cases h with
  | stopped internal foreign patches =>
    rw [List.append_assoc]
    exact stopped internal foreign patches

theorem isInternal (h : Reading objects l ps true) : ∀ s ∈ l, s.fixup.isInternal := by
  cases h with
  | all internal _ => exact internal

/-- The patches are those asked for exactly if none is asked for behind the stop. -/
theorem patches_iff (h : Reading objects l ps ok) :
    ps.filter Patch.stores = l.filterMap (Sited.patch objects) ↔ NothingBehind objects l := by
  have hnot : ∀ {x : Sited}, x.fixup.isInternal → ¬ x.fixup.isForeign := by
    intro x hx hf
    cases hfix : x.fixup <;> simp [hfix, Fixup.isInternal, Fixup.isForeign] at hx hf
  cases h with
  | all internal patches =>
    refine ⟨fun _ pre s post hl hs => ?_, fun _ => patches⟩
    exact absurd hs (hnot (internal s (hl ▸ by simp)))
  | @stopped pre s post _ internal foreign patches =>
    have hnone : s.patch objects = none := by
      unfold Sited.patch
      cases hfix : s.fixup with
      | internal r =>
        rw [hfix] at foreign
        cases foreign
      | _ => rfl
    rw [patches, List.filterMap_append, List.filterMap_cons_none hnone, List.self_eq_append_right,
      List.filterMap_eq_nil_iff]
    constructor
    · -- every record of another type stands behind the internal ones read first
      intro hpost pre' s' post' hl hs' x hx
      rcases List.append_eq_append_iff.mp hl with ⟨as, hpre, htail⟩ | ⟨as, hpre, htail⟩
      · cases as with
        | nil =>
          cases htail
          exact hpost x hx
        | cons a as =>
          rw [List.cons_append, List.cons.injEq] at htail
          exact hpost x (htail.2 ▸ List.mem_append_right _ (List.mem_cons_of_mem _ hx))
      · cases as with
        | nil =>
          cases htail
          exact hpost x hx
        | cons a as =>
          rw [List.cons_append, List.cons.injEq] at htail
          have hmem : s' ∈ pre := by
            rw [hpre, htail.1]
            exact List.mem_append_right _ List.mem_cons_self
          exact absurd hs' (hnot (internal s' hmem))
    · exact fun h => h pre s post rfl foreign

end Reading

theorem Readable.left {l l' : List Sited} (h : Readable (l ++ l')) : Readable l := by
  intro pre s post hl
  refine h pre s (post ++ l') ?_
  rw [hl, List.append_assoc, List.cons_append]

theorem Readable.right {l l' : List Sited} (h : Readable (l ++ l')) (hl : ∀ s ∈ l, s.fixup.isInternal) :
    Readable l' := by
  intro pre s post hl' hpre
  refine h (l ++ pre) s post (by rw [hl', List.append_assoc]) fun x hx => ?_
  exact (List.mem_append.mp hx).elim (hl x) (hpre x)

/-! ### The lists -/

section Lists

variable {f : List UInt8} {le : Nat} {objects : List LeObject}

/-- The loop over the records of a page.  A record has five bytes, so the bytes left are fuel enough. -/
theorem leRecords_reading (src : LeObject) (pageOff pEnd : Nat) : ∀ (l : List Fixup) (fuel p : Nat),
    FileHolds f p (listBytes l) → pEnd = p + (listBytes l).length → (listBytes l).length ≤ fuel →
    Readable (l.map (⟨src, pageOff, ·⟩)) → ∃ ps ok, leRecords f objects src pageOff pEnd fuel p = some (ps, ok) ∧
      Reading objects (l.map (⟨src, pageOff, ·⟩)) ps ok
  | [], fuel, p, _, hend, _, _ => by
    refine ⟨[], true, ?_, Reading.nil⟩
    cases fuel with
    | zero => rfl
    | succ fuel =>
      have hend' : pEnd = p := hend
      rw [leRecords, if_pos (by omega)]
      rfl
  | x :: l, fuel, p, hf, hend, hfuel, hread => by
    have hfive := x.five_le
    rw [listBytes_cons] at hf hend hfuel
    rw [List.length_append] at hend hfuel
    obtain ⟨hx, hl⟩ := fileHolds_append.mp hf
    have hlen := hx.le_length (List.ne_nil_of_length_pos (by omega))
    cases fuel with
    | zero => omega
    | succ fuel =>
      rw [leRecords, if_neg (by omega)]
      rw [List.map_cons] at hread ⊢
      cases x with
      | internal r =>
        obtain ⟨ps, ok, hps, hreading⟩ := leRecords_reading src pageOff pEnd l fuel (p + r.bytes.length) hl
          (by simp only [Fixup.bytes] at hend; omega) (by omega)
          (Readable.right (l := [_]) hread (by simp [Fixup.isInternal]))
        rw [leRecord_internal r hx, Option.bind_eq_bind, Option.bind_some]
        dsimp only
        rw [hps]
        refine ⟨_, _, rfl, Reading.append (l := [_]) (Reading.all (by simp [Fixup.isInternal]) ?_) hreading⟩
        have hstores := recordPatch_stores objects src pageOff r
        generalize recordPatch objects src pageOff r.srcType r.srcOff r.tgtObj r.tgtOff = patch at hstores
        rw [List.filterMap_cons, List.filterMap_nil]
        simp only [Sited.patch, ← hstores]
        cases patch with
        | none => rfl
        | some patch => cases hst : patch.stores <;> simp [Option.filter, hst]
      | foreign bs long type =>
        rw [leRecord_foreign long type hx, Option.bind_eq_bind, Option.bind_some]
        exact ⟨[], false, rfl, @Reading.stopped _ [] _ _ _ (by simp) rfl rfl⟩
      | extended bs long =>
        rcases hread [] _ _ rfl (by simp) with hi | hi <;> cases hi

theorem rdd_inside {off v : Nat} (h : rdd f off = some v) : off + 4 ≤ f.length := by
  simp only [rdd, rdw, byteAt, Option.bind_eq_bind, Option.bind_eq_some_iff, Option.map_eq_some_iff] at h
  obtain ⟨_, -, _, ⟨_, -, _, ⟨_, hlast, -⟩, -⟩, -⟩ := h
  have hlt := (List.getElem?_eq_some_iff.mp hlast).1
  omega

theorem listBytes_eq_nil {l : List Fixup} (h : listBytes l = []) : l = [] := by
  cases l with
  | nil => rfl
  | cons x l =>
    have hfive := x.five_le
    rw [listBytes_cons, List.append_eq_nil_iff] at h
    rw [h.1] at hfive
    exact absurd hfive (by decide)

/-- The loop over the pages. -/
theorem lePages_reading {t : FixupTables} : ∀ (lists : List (List Fixup)) (pg : Nat),
    (∀ i l, lists[i]? = some l → PageList f le t (pg + i) l) → Readable (sited objects t pg lists) →
    ∃ ps ok, lePages f le t objects lists.length pg = some (ps, ok) ∧
      Reading objects (sited objects t pg lists) ps ok
  | [], _, _, _ => ⟨[], true, rfl, Reading.nil⟩
  | l :: lists, pg, hlists, hread => by
    obtain ⟨start, hstart, hnext, hf⟩ := (hlists 0 l rfl).place
    have hrest : ∀ i l', lists[i]? = some l' → PageList f le t (pg + 1 + i) l' := by
      intro i l' hl'
      rw [Nat.add_assoc, Nat.add_comm 1]
      exact hlists (i + 1) l' hl'
    have hin := rdd_inside hnext
    rw [Nat.add_zero] at hstart hnext
    unfold sited at hread ⊢
    simp only [lePages, List.length_cons, if_neg (Nat.not_lt.mpr hin), hstart, hnext, Option.bind_eq_bind,
      Option.bind_some, if_neg (Nat.not_lt.mpr (Nat.le_add_right start _))]
    cases howner : findObjForPage objects (pg + 1) with
    | none =>
      rw [howner] at hread
      rw [ite_self]
      exact lePages_reading lists (pg + 1) hrest hread
    | some src =>
      rw [howner] at hread
      dsimp only at hread ⊢
      by_cases hempty : start = start + (listBytes l).length
      · have hnil : l = [] := listBytes_eq_nil (List.eq_nil_of_length_eq_zero (by omega))
        rw [if_pos hempty]
        rw [hnil] at hread ⊢
        exact lePages_reading lists (pg + 1) hrest hread
      · rw [if_neg hempty]
        dsimp only
        obtain ⟨ps, ok, hps, hreading⟩ := leRecords_reading src (pageOffset t src pg)
          (le + t.recTbl + (start + (listBytes l).length)) l f.length (le + t.recTbl + start) hf (by omega)
          (by have hlen := hf.le_length fun hnil => hempty (by rw [hnil]; rfl); omega) hread.left
        have hps' : leRecords f objects src (lin ((pg + 1 + 4294967296 - src.firstPage) * t.pageSize))
          (le + t.recTbl + (start + (listBytes l).length)) f.length (le + t.recTbl + start) = some (ps, ok) := hps
        rw [hps', Option.bind_some]
        cases ok with
        | false => exact ⟨ps, false, rfl, hreading.stay _⟩
        | true =>
          obtain ⟨qs, ok, hqs, hrest'⟩ := lePages_reading lists (pg + 1) hrest (hread.right hreading.isInternal)
          dsimp only
          rw [if_pos rfl, hqs, Option.bind_some]
          exact ⟨_, _, rfl, hreading.append hrest'⟩

end Lists

/-! ### The fixups of a load -/

/-- The image of a load before the fixups, and the objects with their selectors. -/
def Installed (f : List UInt8) (le : Nat) (m image : Machine) (objects : List LeObject) : Prop :=
  ∃ a loaded, leLoadObjects f le (mcbReady m) = some (a, loaded, true) ∧
    leInstallDescriptors a loaded = some (image, objects)

theorem sited_empty (objects : List LeObject) (t : FixupTables) : ∀ (lists : List (List Fixup)) (pg : Nat),
    (∀ l ∈ lists, l = []) → sited objects t pg lists = []
  | [], _, _ => rfl
  | l :: lists, pg, h => by
    rw [sited, h l List.mem_cons_self,
      sited_empty objects t lists (pg + 1) fun l' hl' => h l' (List.mem_cons_of_mem _ hl')]
    split <;> rfl

/-- The fixups of well-formed lists are read, to the end or to a record of another reference type. -/
theorem leFixups_reading {f : List UInt8} {le : Nat} {t : FixupTables} {lists : List (List Fixup)}
    (objects : List LeObject) (hl : FixupLists f le t lists) (hread : Readable (sited objects t 0 lists)) :
    ∃ ps ok, leFixups f le objects = some (ps, ok) ∧ Reading objects (sited objects t 0 lists) ps ok := by
  unfold leFixups
  rw [hl.tables, Option.bind_eq_bind, Option.bind_some]
  by_cases hnone : t.pageTbl = 0 ∨ t.recTbl = 0 ∨ t.numPages = 0
  · have hempty : ∀ l ∈ lists, l = [] := by
      intro l hmem
      rcases hnone with h | h | h
      · exact hl.absent (Or.inl h) l hmem
      · exact hl.absent (Or.inr h) l hmem
      · rw [List.eq_nil_of_length_eq_zero (hl.count.trans h)] at hmem
        cases hmem
    rw [if_pos hnone, sited_empty objects t lists 0 hempty]
    exact ⟨[], true, rfl, Reading.nil⟩
  · simp only [not_or] at hnone
    rw [if_neg (by simp only [not_or]; exact hnone), ← hl.count]
    refine lePages_reading lists 0 (fun i l hget => ?_) hread
    rw [Nat.zero_add]
    exact hl.present hnone.1 hnone.2.1 i l hget

/-- A load that returns true has been through the installation. -/
theorem loadExeAt_installed {host : Host} {f : List UInt8} {m r : Machine} {psp le : Nat} {regs : InitialRegs}
    (h : loadExeAt host f m psp = some (r, some regs)) (he : extenderDetected host f = some false)
    (hle : linearAt host f false = some (some le)) : ∃ image objects, Installed f le m image objects := by
  unfold loadExeAt at h
  split at h
  · cases h
  · rw [he, Option.bind_eq_bind, Option.bind_some, hle] at h
    obtain ⟨q, hq, hcase⟩ := loadLe_cases h
    obtain ⟨a, loaded, ok, hload, hcases⟩ := lePrepare_cases hq
    have hsome : q.2.isSome := by
      rcases hcase with ⟨-, hnone⟩ | ⟨objects, e, hq', -⟩
      · cases hnone
      · rw [hq']
        rfl
    rcases hcases with ⟨-, rfl⟩ | ⟨rfl, ⟨-, rfl⟩ | ⟨d, objects, p, x, hinstall, -, -, -⟩⟩
    · cases hsome
    · cases hsome
    · exact ⟨d, objects, a, loaded, hload, hinstall⟩

/-- The patches `le_apply_fixups` makes in the image of the load are those the lists ask for, in order; one
    that stores nothing is not counted. -/
def FixupsApplied (f : List UInt8) (le : Nat) (m : Machine) (t : FixupTables) (lists : List (List Fixup)) : Prop :=
  ∃ image objects ps ok, Installed f le m image objects ∧ leFixups f le objects = some (ps, ok) ∧
    leApplyFixups f le objects image.mem = some (applyPatches image.mem ps, ok) ∧
    ps.filter Patch.stores = (sited objects t 0 lists).filterMap (Sited.patch objects)

/-- **The fixups of a load.**  Where the first record that is no internal reference is of another reference
    type, every internal reference has been applied exactly if none that asks for a patch stands behind it. -/
theorem fixupsApplied_iff {host : Host} {f : List UInt8} {m r : Machine} {psp le : Nat} {regs : InitialRegs}
    {t : FixupTables} {lists : List (List Fixup)} (h : loadExeAt host f m psp = some (r, some regs))
    (he : extenderDetected host f = some false) (hle : linearAt host f false = some (some le))
    (hl : FixupLists f le t lists) :
    ∃ image objects, Installed f le m image objects ∧
      (Readable (sited objects t 0 lists) →
        (FixupsApplied f le m t lists ↔ NothingBehind objects (sited objects t 0 lists))) := by
  obtain ⟨image, objects, a, loaded, hload, hinstall⟩ := loadExeAt_installed h he hle
  refine ⟨image, objects, ⟨a, loaded, hload, hinstall⟩, fun hread => ?_⟩
  obtain ⟨ps, ok, hps, hreading⟩ := leFixups_reading objects hl hread
  rw [← hreading.patches_iff]
  constructor
  · rintro ⟨image', objects', qs, ok', ⟨a', loaded', hload', hinstall'⟩, hqs, -, heq⟩
    rw [hload] at hload'
    cases hload'
    rw [hinstall] at hinstall'
    cases hinstall'
    rw [hps] at hqs
    cases hqs
    exact heq
  · intro heq
    refine ⟨image, objects, ps, ok, ⟨a, loaded, hload, hinstall⟩, hps, ?_, heq⟩
    rw [leApplyFixups, hps]
    rfl

/-! ### An import before an internal reference -/

/-- One object of sixteen bytes with a page, and two records for it: an import by ordinal, and an internal
    reference to its fifth byte. -/
def leImport : List UInt8 :=
  leFile 0x122 (leStub ++ [(0xA8, 0xCC), (0xAC, 0xD4), (0xF0, 0x10), (0xF8, 0x04), (0xF9, 0x20), (0xFC, 1), (0x100, 1),
    (0x110, 14), (0x114, 7), (0x115, 1), (0x118, 1), (0x119, 1), (0x11B, 7), (0x11F, 1), (0x120, 4)])

def fifthByte : InternalRef where
  srcType := 7
  flags := 0
  srcOff := 0
  tgtObj := 1
  tgtOff := 4
  single := by decide
  plain := by decide
  srcOff_lt := by decide
  tgtObj_lt := by decide
  tgtOff_lt := by decide

def importLists : List (List Fixup) :=
  [[.foreign [7, 1, 0, 0, 1, 1, 0] (by decide) ⟨1, rfl, by decide⟩, .internal fifthByte]]

def importTables : FixupTables := ⟨1, 0x1000, 0xCC, 0xD4⟩

theorem fileHolds_of_forall {f : List UInt8} {p : Nat} {bs : List Nat}
    (h : (List.range bs.length).all (fun i => byteAt f (p + i) = bs[i]?) = true) : FileHolds f p bs := by
  intro i b hb
  have hi := (List.getElem?_eq_some_iff.mp hb).1
  have hbyte := List.all_eq_true.mp h i (List.mem_range.mpr hi)
  rw [← hb]
  exact of_decide_eq_true hbyte

/-- A file with these tables and the list of one page. -/
theorem importTables_lists {f : List UInt8} {l : List Fixup} (h₁ : rdd f 0x54 = some 1) (h₂ : rdd f 0x68 = some 0x1000)
    (h₃ : rdd f 0xA8 = some 0xCC) (h₄ : rdd f 0xAC = some 0xD4) (hl : PageList f 0x40 importTables 0 l) :
    FixupLists f 0x40 importTables [l] where
  tables := by
    simp only [readFixupTables, h₁, h₂, h₃, h₄, Nat.reduceAdd, Option.bind_eq_bind, Option.bind_some]
    rfl
  count := rfl
  absent := by
    rintro (h | h) <;> exact absurd h (by decide)
  present := by
    intro _ _ pg l' hl'
    cases pg with
    | zero =>
      cases hl'
      exact hl
    | succ pg => simp at hl'

theorem leImport_lists : FixupLists leImport 0x40 importTables importLists :=
  importTables_lists (by decide +kernel) (by decide +kernel) (by decide +kernel) (by decide +kernel)
    ⟨0, by decide +kernel, by decide +kernel, fileHolds_of_forall (by decide +kernel)⟩

def leSixteen (sel : Nat) : LeObject :=
  { virtBase := 0, virtSize := 16, flags := 0x2004, firstPage := 1, pageCount := 1, hostBase := 0x20010,
    hostSeg := 0x2001, ldtSel := sel }

def importHost : Host where
  resolvePath := id
  contents := fun _ => some leImport
  bypassExtender := false
  leAsMz := false

theorem leImport_loads : (loadExeAt importHost leImport bootMachine 0x1000).map (fun r => r.2.isSome) = some true := by
  decide +kernel

theorem leImport_objects : ((leLoadObjects leImport 0x40 (mcbReady bootMachine)).bind fun r =>
      (leInstallDescriptors r.1 r.2.1).map (·.2)) = some [leSixteen 0xC] := by
  decide +kernel

theorem leImport_accepted : ∃ r regs, loadExeAt importHost leImport bootMachine 0x1000 = some (r, some regs) := by
  obtain ⟨⟨r, regs⟩, hload, hsome⟩ := Option.map_eq_some_iff.mp leImport_loads
  obtain ⟨regs, rfl⟩ := Option.isSome_iff_exists.mp hsome
  exact ⟨r, regs, hload⟩

/-- The same object, with the internal reference in front of the import. -/
def leReference : List UInt8 :=
  leFile 0x122 (leStub ++ [(0xA8, 0xCC), (0xAC, 0xD4), (0xF0, 0x10), (0xF8, 0x04), (0xF9, 0x20), (0xFC, 1), (0x100, 1),
    (0x110, 14), (0x114, 7), (0x118, 1), (0x119, 4), (0x11B, 7), (0x11C, 1), (0x11F, 1), (0x120, 1)])

def referenceLists : List (List Fixup) :=
  [[.internal fifthByte, .foreign [7, 1, 0, 0, 1, 1, 0] (by decide) ⟨1, rfl, by decide⟩]]

def referenceHost : Host := { importHost with contents := fun _ => some leReference }

theorem leReference_lists : FixupLists leReference 0x40 importTables referenceLists :=
  importTables_lists (by decide +kernel) (by decide +kernel) (by decide +kernel) (by decide +kernel)
    ⟨0, by decide +kernel, by decide +kernel, fileHolds_of_forall (by decide +kernel)⟩

theorem leReference_loads : (loadExeAt referenceHost leReference bootMachine 0x1000).map (fun r => r.2.isSome) =
    some true := by
  decide +kernel

theorem leReference_objects : ((leLoadObjects leReference 0x40 (mcbReady bootMachine)).bind fun r =>
      (leInstallDescriptors r.1 r.2.1).map (·.2)) = some [leSixteen 0xC] := by
  decide +kernel

theorem readable_of_forall {l : List Sited} (h : ∀ s ∈ l, s.fixup.isInternal ∨ s.fixup.isForeign) : Readable l := by
  intro pre s post hl _
  refine h s ?_
  rw [hl]
  exact List.mem_append_right _ List.mem_cons_self

/-- Nothing stands behind the last record. -/
theorem nothingBehind_last (objects : List LeObject) {l : List Sited} (s : Sited) (h : ∀ x ∈ l, x.fixup.isInternal) :
    NothingBehind objects (l ++ [s]) := by
  intro pre t post hl ht x hx
  rcases List.eq_nil_or_concat' post with rfl | ⟨front, last, rfl⟩
  · cases hx
  · exfalso
    rw [← List.cons_append, ← List.append_assoc] at hl
    have hfront := (List.append_inj' hl rfl).1
    have hmem : t ∈ l := by
      rw [hfront]
      exact List.mem_append_right _ List.mem_cons_self
    have hint := h t hmem
    cases hfix : t.fixup <;> simp [hfix, Fixup.isInternal, Fixup.isForeign] at hint ht

/-- The internal reference in front of the import is applied. -/
theorem fixupsApplied_iff_reference : FixupsApplied leReference 0x40 bootMachine importTables referenceLists := by
  obtain ⟨⟨r, regs⟩, hload, hsome⟩ := Option.map_eq_some_iff.mp leReference_loads
  obtain ⟨regs, rfl⟩ := Option.isSome_iff_exists.mp hsome
  obtain ⟨image, objects, ⟨a, loaded, hobj, hinstall⟩, hiff⟩ :=
    fixupsApplied_iff hload (by decide +kernel) (by decide +kernel) leReference_lists
  have hobjects := leReference_objects
  rw [hobj, Option.bind_some, hinstall, Option.map_some, Option.some.injEq] at hobjects
  obtain rfl : objects = [leSixteen 0xC] := hobjects
  have hsited : sited [leSixteen 0xC] importTables 0 referenceLists = [⟨leSixteen 0xC, 0, .internal fifthByte⟩] ++
      [⟨leSixteen 0xC, 0, .foreign [7, 1, 0, 0, 1, 1, 0] (by decide) ⟨1, rfl, by decide⟩⟩] := rfl
  rw [hsited] at hiff
  refine (hiff (readable_of_forall ?_)).mpr (nothingBehind_last _ _ ?_)
  · simp [Fixup.isInternal, Fixup.isForeign]
  · simp [Fixup.isInternal]

/-- The internal reference behind the import is not applied, and the load returns true. -/
theorem import_suppresses : ¬ ∀ (host : Host) (f : List UInt8) (m r : Machine) (psp le : Nat) (regs : InitialRegs)
    (t : FixupTables) (lists : List (List Fixup)), loadExeAt host f m psp = some (r, some regs) →
      extenderDetected host f = some false → linearAt host f false = some (some le) → FixupLists f le t lists →
      FixupsApplied f le m t lists := by
  intro h
  obtain ⟨r, regs, hload⟩ := leImport_accepted
  obtain ⟨image, objects, ps, ok, ⟨a, loaded, hobj, hinstall⟩, hps, -, heq⟩ := h importHost leImport bootMachine r
    0x1000 0x40 regs importTables importLists hload (by decide +kernel) (by decide +kernel) leImport_lists
  have hobjects := leImport_objects
  rw [hobj, Option.bind_some, hinstall, Option.map_some, Option.some.injEq] at hobjects
  rw [show objects = [leSixteen 0xC] from hobjects] at hps heq
  have hnone : leFixups leImport 0x40 [leSixteen 0xC] = some ([], false) := by decide +kernel
  rw [hnone] at hps
  cases hps
  exact absurd heq (by decide +kernel)

end Dosiz.Le
