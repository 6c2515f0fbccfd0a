/-
  Dosiz/LeDescriptors.lean
  ========================
  **The segments of LE objects** (`le_install_descriptors` of `bridge.cc`).

  Each object gets an LDT slot of a free run, with its place as the base and its size as a
  limit in bytes.  The limit field has 20 bits, and `write_ldt_descriptor` never sets the
  granularity bit: `leDescriptors_iff` says for which objects the segment is the object.
-/
import Dosiz.LeMemory
import Dosiz.DescriptorGrants
import Mathlib.Data.Fintype.EquivFin

namespace Dosiz.Le

open ByteMemory Machine

/-! ### The segment of an object -/

/-- The unit the limit of the descriptor at `p` counts in. -/
def descUnit (mem : Mem) (p : Nat) : Nat := if descPages mem p then 4096 else 1

/-- The descriptor at `p` is the segment of `o`: it begins where the object stands, and ends with it, up to
    the unit. -/
structure SegmentOf (mem : Mem) (p : Nat) (o : LeObject) : Prop where
  base : descBase mem p = o.hostBase
  inside : ∀ off < o.virtSize, off ≤ getLimit mem p
  outside : ∀ off, (o.virtSize + descUnit mem p - 1) / descUnit mem p * descUnit mem p ≤ off →
    getLimit mem p < off

/-- The slot an object's selector names. -/
def LeObject.slot (o : LeObject) : Nat := o.ldtSel / 8

/-- Each object has a slot of its own, free before, with its segment in it. -/
structure SegmentsInstalled (m r : Machine) (objects objects' : List LeObject) : Prop where
  length : objects'.length = objects.length
  free : ∀ (i : Nat) (o' : LeObject), objects'[i]? = some o' → o'.slot < LDT_COUNT ∧ m.ldtInUse o'.slot = false
  distinct : ∀ (i j : Nat) (o p : LeObject), objects'[i]? = some o → objects'[j]? = some p → o.slot = p.slot → i = j
  segment : ∀ (i : Nat) (o o' : LeObject), objects[i]? = some o → objects'[i]? = some o' →
    r.ldtInUse o'.slot = true ∧ SegmentOf r.mem (descAddr o'.ldtSel) o

/-- A size the limit field can hold in bytes. -/
def LeObject.Describable (o : LeObject) : Prop := 1 ≤ o.virtSize ∧ o.virtSize ≤ 0x100000

/-- The fields of an object are 32 bits wide. -/
def LeObject.Dwords (o : LeObject) : Prop := o.hostBase < 4294967296 ∧ o.virtSize < 4294967296

theorem descPages_descAt {mem : Mem} {p base limit access : Nat} {big : Bool}
    (h : DescAt mem p base limit access big) : descPages mem p = false := by
  have h₆ := h 6 (by decide)
  simp only [descriptorBytes, List.getD_cons_succ, List.getD_cons_zero] at h₆
  rw [descPages, decide_eq_false_iff_not, h₆]
  cases big
  · simp only [Bool.false_eq_true, if_false]
    omega
  · simp only [if_true]
    omega

/-- What is written for an object is its segment if the size can be described, and only then. -/
theorem segmentOf_iff {mem : Mem} {p access : Nat} {big : Bool} {o : LeObject} (ho : o.Dwords)
    (h : DescAt mem p o.hostBase (o.virtSize - 1) access big) : SegmentOf mem p o ↔ o.Describable := by
  have hlimit := h.getLimit
  have hunit : descUnit mem p = 1 := by
    rw [descUnit, descPages_descAt h]
    rfl
  constructor
  · intro hs
    have hpos : 1 ≤ o.virtSize := by
      by_contra hzero
      have hout := hs.outside 0 (by rw [hunit]; omega)
      exact absurd hout (Nat.not_lt_zero _)
    have hin := hs.inside (o.virtSize - 1) (by omega)
    refine ⟨hpos, ?_⟩
    rw [hlimit] at hin
    omega
  · rintro ⟨hpos, hmax⟩
    refine ⟨h.base ho.1, fun off hoff => ?_, fun off hoff => ?_⟩
    · rw [hlimit]
      omega
    · rw [hunit, Nat.add_sub_cancel, Nat.div_one, Nat.mul_one] at hoff
      rw [hlimit]
      omega

/-! ### The loop -/

/-- What `installDescriptors` does from slot `idx` on. -/
structure Installs (idx : Nat) (objects : List LeObject) (m : Machine) (r : Machine × List LeObject) : Prop where
  length : r.2.length = objects.length
  off : AgreesOff (Set.Ici (LDT_BASE + idx * 8)) m.mem r.1.mem
  below : ∀ j < idx, r.1.ldtInUse j = m.ldtInUse j
  object : ∀ (i : Nat) (o : LeObject), objects[i]? = some o → r.1.ldtInUse (idx + i) = true ∧
    DescAt r.1.mem (LDT_BASE + (idx + i) * 8) o.hostBase (o.virtSize - 1) (if o.isCode then 0x9A else 0x92) o.isBig
  selector : ∀ (i : Nat) (o' : LeObject), r.2[i]? = some o' → o'.ldtSel = ((idx + i) * 8 + 4) % 65536

theorem installDescriptors_installs : ∀ (objects : List LeObject) (idx : Nat) (m : Machine),
    Installs idx objects m (installDescriptors idx objects m)
  | [], idx, m => ⟨rfl, AgreesOff.refl _ _, fun _ _ => rfl, by simp, by simp [installDescriptors]⟩
  | o :: objects, idx, m => by
    unfold installDescriptors
    dsimp only
    have hwrite := writeLdtDescriptor_off m.mem idx o.hostBase (o.virtSize - 1)
      (if o.isCode = true then 0x9A else 0x92) o.isBig
    have hdesc := descAt_writeLdt m.mem idx o.hostBase (o.virtSize - 1)
      (if o.isCode = true then 0x9A else 0x92) o.isBig
    generalize writeLdtDescriptor m.mem idx o.hostBase (o.virtSize - 1)
      (if o.isCode = true then 0x9A else 0x92) o.isBig = mem at hwrite hdesc
    have ih := installDescriptors_installs objects (idx + 1) (ldtSet (m.setMem mem) idx true)
    generalize installDescriptors (idx + 1) objects (ldtSet (m.setMem mem) idx true) = r at ih
    refine ⟨congrArg (· + 1) ih.length, ?_, fun j hj => ?_, fun i q hq => ?_, fun i q hq => ?_⟩
    · refine (hwrite.mono fun x hx => hx.1).trans (ih.off.mono fun x hx => ?_)
      have hx' : LDT_BASE + (idx + 1) * 8 ≤ x := hx
      show LDT_BASE + idx * 8 ≤ x
      omega
    · exact (ih.below j (by omega)).trans (Function.update_of_ne (by omega) _ _)
    · cases i with
      | zero =>
        rw [List.getElem?_cons_zero, Option.some.injEq] at hq
        subst hq
        refine ⟨(ih.below idx (Nat.lt_succ_self idx)).trans (Function.update_self _ _ _), ?_⟩
        refine hdesc.frame ih.off fun k hk hx => ?_
        have hx' : LDT_BASE + (idx + 1) * 8 ≤ LDT_BASE + idx * 8 + k := hx
        omega
      | succ i =>
        rw [List.getElem?_cons_succ] at hq
        have hobject := ih.object i q hq
        rw [Nat.add_right_comm, Nat.add_assoc] at hobject
        exact hobject
    · cases i with
      | zero =>
        rw [List.getElem?_cons_zero, Option.some.injEq] at hq
        rw [← hq]
        rfl
      | succ i =>
        rw [List.getElem?_cons_succ] at hq
        rw [ih.selector i q hq, Nat.add_right_comm, Nat.add_assoc]

/-! ### The installation -/

theorem ldtScan_zero (inUse : Nat → Bool) : ∀ n i start have_, ldtScan inUse 0 n i start have_ = 0
  | 0, _, _, _ => rfl
  | n + 1, i, start, have_ => by
    rw [ldtScan]
    dsimp only
    rw [if_neg (Nat.succ_ne_zero have_), ldtScan_zero inUse n, ldtScan_zero inUse n, ite_self]

/-- No run is found for no object. -/
theorem ldtFindRun_zero (m : Machine) : ldtFindRun m 0 = 0 := ldtScan_zero m.ldtInUse _ _ _ _

/-- A run of slots for all objects, filled from the first on. -/
theorem leInstallDescriptors_spec {m r : Machine} {objects objects' : List LeObject}
    (h : leInstallDescriptors m objects = some (r, objects')) :
    ∃ start, start + objects.length % 65536 ≤ LDT_COUNT ∧
      FreeRun m.ldtInUse start (objects.length % 65536) ∧
      Installs start (objects.take (objects.length % 65536)) m
        (r, objects'.take (objects.length % 65536)) ∧
      objects'.length = objects.length := by
  unfold leInstallDescriptors at h
  dsimp only at h
  by_cases hstart : ldtFindRun m (objects.length % 65536) = 0
  · rw [if_pos hstart] at h
    cases h
  · rw [if_neg hstart] at h
    have hpos : 0 < objects.length % 65536 := by
      by_contra hzero
      have hnone : objects.length % 65536 = 0 := by omega
      rw [hnone] at hstart
      exact hstart (ldtFindRun_zero m)
    rcases ldtFindRun_firstFit m hpos with ⟨-, hle, hfree, -⟩ | ⟨hzero, -⟩
    · have hloop := installDescriptors_installs (objects.take (objects.length % 65536))
        (ldtFindRun m (objects.length % 65536)) m
      have hlen : (objects.take (objects.length % 65536)).length = objects.length % 65536 :=
        List.length_take_of_le (Nat.mod_le _ _)
      generalize installDescriptors _ _ m = q at hloop h
      obtain ⟨rfl, rfl⟩ := Prod.mk.inj (Option.some.inj h)
      have htake : (q.2 ++ objects.drop (objects.length % 65536)).take (objects.length % 65536) = q.2 := by
        rw [← hlen, ← hloop.length, List.take_left]
      refine ⟨_, hle, hfree, ?_, ?_⟩
      · rw [htake]
        exact hloop
      · rw [List.length_append, hloop.length, hlen, List.length_drop]
        have hmod := Nat.mod_le objects.length 65536
        omega
    · exact absurd hzero hstart

/-- More objects than slots. -/
theorem SegmentsInstalled.length_le {m r : Machine} {objects objects' : List LeObject}
    (h : SegmentsInstalled m r objects objects') : objects.length ≤ LDT_COUNT := by
  have hslot : ∀ i : Fin objects'.length, (objects'.get i).slot < LDT_COUNT := fun i =>
    (h.free i _ (List.getElem?_eq_getElem i.isLt)).1
  have hinj : Function.Injective fun i : Fin objects'.length => (⟨_, hslot i⟩ : Fin LDT_COUNT) := by
    intro i j hij
    exact Fin.ext (h.distinct i j _ _ (List.getElem?_eq_getElem i.isLt) (List.getElem?_eq_getElem j.isLt)
      (Fin.mk.inj hij))
  have hcard := Fintype.card_le_of_injective _ hinj
  rw [Fintype.card_fin, Fintype.card_fin, h.length] at hcard
  exact hcard

/-- **The segments of the objects.**  Each object has a slot of its own and its segment exactly if the 16-bit count
    has not lost an object, and every size is between 1 byte and 1 MB. -/
theorem leDescriptors_iff {m r : Machine} {objects objects' : List LeObject}
    (hdw : ∀ o ∈ objects, o.Dwords) (h : leInstallDescriptors m objects = some (r, objects')) :
    SegmentsInstalled m r objects objects' ↔ objects.length < 65536 ∧ ∀ o ∈ objects, o.Describable := by
  obtain ⟨start, hle, hfree, hinst, hlen⟩ := leInstallDescriptors_spec h
  have hcount : LDT_COUNT = 256 := rfl
  -- once the count is right, each object has the slot behind the one before it
  have hall : objects.length < 65536 → (∀ i o', objects'[i]? = some o' → i < objects.length ∧
      o'.slot = start + i ∧ descAddr o'.ldtSel = LDT_BASE + (start + i) * 8) ∧
      ∀ i o, objects[i]? = some o → r.ldtInUse (start + i) = true ∧
        DescAt r.mem (LDT_BASE + (start + i) * 8) o.hostBase (o.virtSize - 1)
          (if o.isCode then 0x9A else 0x92) o.isBig := by
    intro hlt
    have hmod : objects.length % 65536 = objects.length := Nat.mod_eq_of_lt hlt
    rw [hmod] at hle hinst
    rw [List.take_length, ← hlen, List.take_length] at hinst
    refine ⟨fun i o' ho' => ?_, hinst.object⟩
    have hi : i < objects.length := by
      rw [← hlen]
      exact (List.getElem?_eq_some_iff.mp ho').1
    have hsel := hinst.selector i o' ho'
    have hval : o'.ldtSel = (start + i) * 8 + 4 := by
      rw [hsel]
      omega
    refine ⟨hi, ?_, ?_⟩
    · rw [LeObject.slot, hval]
      omega
    · rw [descAddr, selectorTableBase, hval, if_pos (by omega)]
      omega
  constructor
  · intro hs
    have hlt : objects.length < 65536 := by
      have hcard := hs.length_le
      omega
    obtain ⟨hsel, hobj⟩ := hall hlt
    refine ⟨hlt, fun o ho => ?_⟩
    obtain ⟨i, hi, rfl⟩ := List.getElem_of_mem ho
    have hget : objects[i]? = some objects[i] := List.getElem?_eq_getElem hi
    have hget' : objects'[i]? = some (objects'.get ⟨i, hlen ▸ hi⟩) := List.getElem?_eq_getElem _
    have hseg := (hs.segment i _ _ hget hget').2
    rw [(hsel i _ hget').2.2] at hseg
    exact (segmentOf_iff (hdw _ ho) (hobj i _ hget).2).mp hseg
  · rintro ⟨hlt, hdesc⟩
    obtain ⟨hsel, hobj⟩ := hall hlt
    rw [Nat.mod_eq_of_lt hlt] at hle hfree
    refine ⟨hlen, fun i o' ho' => ?_, fun i j o p ho hp heq => ?_, fun i o o' ho ho' => ?_⟩
    · obtain ⟨hi, hslot, -⟩ := hsel i o' ho'
      rw [hslot]
      exact ⟨by omega, hfree (start + i) (by omega) (by omega)⟩
    · rw [(hsel i o ho).2.1, (hsel j p hp).2.1] at heq
      omega
    · obtain ⟨hi, hslot, haddr⟩ := hsel i o' ho'
      obtain ⟨hused, hat⟩ := hobj i o ho
      have hmem : o ∈ objects := List.mem_of_getElem? ho
      rw [hslot, haddr]
      exact ⟨hused, (segmentOf_iff (hdw o hmem) hat).mpr (hdesc o hmem)⟩

/-- A 32-bit code object at 4 MB. -/
def codeObject (size : Nat) : LeObject :=
  { virtBase := 0x10000
    virtSize := size
    flags := 0x2004
    firstPage := 1
    pageCount := 1
    hostBase := 0x400000 }

/-- The limit of the descriptor installed for the object. -/
theorem codeObject_limit (size : Nat) (h : size = 0x5000 ∨ size = 0x200000) :
    (leInstallDescriptors bootMachine [codeObject size]).map (fun p =>
      (p.2.map LeObject.ldtSel, getLimit p.1.mem (descAddr 12))) = some ([12], min (size - 1) 0xFFFFF) := by
  rcases h with rfl | rfl <;> decide +kernel

/-- A 16-bit data object of 300h bytes at 20010h, with a block of the MCB chain. -/
def dataObject : LeObject :=
  { virtBase := 0x20000
    virtSize := 0x300
    flags := 0x0003
    firstPage := 2
    pageCount := 1
    hostBase := 0x20010
    hostSeg := 0x2001 }

/-- Code and data get selectors of their own. -/
theorem leDescriptors_iff_small : ∃ r objects',
    leInstallDescriptors bootMachine [codeObject 0x5000, dataObject] = some (r, objects') ∧
      objects'.map LeObject.ldtSel = [0x0C, 0x14] ∧
      SegmentsInstalled bootMachine r [codeObject 0x5000, dataObject] objects' := by
  have hsel : (leInstallDescriptors bootMachine [codeObject 0x5000, dataObject]).map
      (fun p => p.2.map LeObject.ldtSel) = some [0x0C, 0x14] := by decide +kernel
  obtain ⟨⟨r, objects'⟩, hinst, hsel⟩ := Option.map_eq_some_iff.mp hsel
  refine ⟨r, objects', hinst, hsel, (leDescriptors_iff ?_ hinst).mpr ⟨by decide, ?_⟩⟩
  · intro o ho
    simp only [List.mem_cons, List.not_mem_nil, or_false] at ho
    rcases ho with rfl | rfl
    · exact ⟨by decide, by decide⟩
    · exact ⟨by decide, by decide⟩
  · intro o ho
    simp only [List.mem_cons, List.not_mem_nil, or_false] at ho
    rcases ho with rfl | rfl
    · exact ⟨by decide, by decide⟩
    · exact ⟨by decide, by decide⟩

/-- The second megabyte of the object is not in its segment. -/
theorem leDescriptors_short : ∃ r objects',
    leInstallDescriptors bootMachine [codeObject 0x200000] = some (r, objects') ∧
      ¬ SegmentsInstalled bootMachine r [codeObject 0x200000] objects' := by
  obtain ⟨⟨r, objects'⟩, hinst, hlimit⟩ := Option.map_eq_some_iff.mp (codeObject_limit 0x200000 (Or.inr rfl))
  obtain ⟨hsel, hlimit⟩ := Prod.mk.inj hlimit
  refine ⟨r, objects', hinst, fun h => ?_⟩
  obtain ⟨o', rfl, ho'⟩ := List.map_eq_singleton_iff.mp hsel
  have hseg := (h.segment 0 _ o' rfl rfl).2.inside 0x100000 (by decide)
  rw [ho', hlimit] at hseg
  exact absurd hseg (by decide)

end Dosiz.Le
