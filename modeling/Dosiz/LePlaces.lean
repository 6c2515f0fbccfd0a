/-
  Dosiz/LePlaces.lean
  ===================
  **Where the LE loader puts the objects** (`le_load_objects` of `bridge.cc`).

  The objects of the table are loaded one after the other (`Loading`).  Whatever the file says of
  them, an object stands at a segment of the MCB chain, or in a block of the protected-mode arena,
  which is then the lowest place with room for it (`PmPlaced`).
-/
import Dosiz.LdtSlots
import Dosiz.LeMemory
import Dosiz.PmAlloc

namespace Dosiz.Le

open ByteMemory Machine Mcb PmArena Extents

/-! ### One object after the other -/

/-- The first `i` objects of the table have been loaded: the machine, and the objects. -/
inductive Loading (f : List UInt8) (le : Nat) (h : LeHeader) (m₀ : Machine) :
    Nat → Machine → List LeObject → Prop
  | start : Loading f le h m₀ 0 m₀ []
  | next {i : Nat} {m : Machine} {objects : List LeObject} {m' : Machine} {o : LeObject} :
      Loading f le h m₀ i m objects → i < h.numObjects → leLoadObject f le h i m = some (m', some o) →
      Loading f le h m₀ (i + 1) m' (objects ++ [o])

section Loading

variable {f : List UInt8} {le : Nat} {h : LeHeader} {m₀ m : Machine} {objects : List LeObject}

/-- The loop loads object after object, to the end of the table or to one that cannot be loaded. -/
theorem leLoadFrom_loading {n i : Nat} (hn : i + n = h.numObjects) (hl : Loading f le h m₀ i m objects)
    {r : Machine × List LeObject × Bool} (hr : leLoadFrom f le h n i m objects = some r) :
    (r.2.2 = true ∧ Loading f le h m₀ h.numObjects r.1 r.2.1) ∨
      (r.2.2 = false ∧ ∃ j m', Loading f le h m₀ j m' r.2.1 ∧ leLoadObject f le h j m' = some (r.1, none)) := by
  induction n generalizing i m objects with
  | zero =>
    cases hr
    rw [← hn]
    exact Or.inl ⟨rfl, hl⟩
  | succ n ih =>
    simp only [leLoadFrom, Option.bind_eq_bind, Option.bind_eq_some_iff] at hr
    obtain ⟨⟨m', o⟩, ho, hr⟩ := hr
    cases o with
    | none =>
      cases hr
      exact Or.inr ⟨rfl, i, m, hl, ho⟩
    | some o => exact ih (by omega) (hl.next (by omega) ho) hr

theorem leLoadObjects_loading {r : Machine × List LeObject × Bool} (hload : leLoadObjects f le m = some r) :
    ∃ h, readHeader f le = some h ∧ ((r.2.2 = true ∧ Loading f le h m h.numObjects r.1 r.2.1) ∨
      (r.2.2 = false ∧ ∃ j m', Loading f le h m j m' r.2.1 ∧ leLoadObject f le h j m' = some (r.1, none))) := by
  obtain ⟨h, hh, hload⟩ := Option.bind_eq_some_iff.mp hload
  exact ⟨h, hh, leLoadFrom_loading (Nat.zero_add _) .start hload⟩

end Loading

/-! ### Where the objects are -/

/-- The objects above 1 MB have blocks of the arena, as low as there was room; the others segments. -/
structure PmPlaced (m : Machine) (objects : List LeObject) : Prop where
  pm : PmOk m
  high : ∀ o ∈ objects, o.hostSeg = 0 → ∃ e ∈ m.pmBusy, e.base = o.hostBase ∧ o.virtSize ≤ e.size ∧
    NoRoomBelow PM_ARENA_START m.pmBusy e
  low : ∀ o ∈ objects, o.hostSeg ≠ 0 → o.hostBase = o.hostSeg * 16 ∧ 2 ≤ o.hostSeg ∧ o.hostSeg < 65536

section Placed

variable {f : List UInt8} {le : Nat} {m : Machine} {objects : List LeObject}

theorem PmPlaced.same (h : PmPlaced m objects) {r : Machine} (hbusy : r.pmBusy = m.pmBusy)
    (hinit : r.pmInitialised = m.pmInitialised) (hend : r.pmEnd = m.pmEnd) : PmPlaced r objects where
  pm := by
    refine ⟨?_, ?_, ?_⟩
    · rw [hbusy, hend]
      exact h.pm.packed
    · rw [hend]
      exact h.pm.high
    · rw [hbusy, hinit]
      exact h.pm.fresh
  high := by
    rw [hbusy]
    exact h.high
  low := h.low

/-- Blocks are added to the arena. -/
theorem PmPlaced.grow (h : PmPlaced m objects) {r : Machine} (hok : PmOk r)
    (hbusy : ∀ e ∈ m.pmBusy, e ∈ r.pmBusy) : PmPlaced r objects where
  pm := hok
  high := by
    intro o ho hseg
    obtain ⟨e, he, hbase, hsize, hfirst⟩ := h.high o ho hseg
    exact ⟨e, hbusy e he, hbase, hsize, hfirst.mono hbusy⟩
  low := h.low

theorem mcbAllocate_pm {need : Nat} {a : Machine × Nat × Nat} (h : mcbAllocate m need = some a) :
    a.1.pmBusy = m.pmBusy ∧ a.1.pmInitialised = m.pmInitialised ∧ a.1.pmEnd = m.pmEnd ∧
      (a.2.1 ≠ 0 → 2 ≤ a.2.1 ∧ a.2.1 < 65536) := by
  have hready : (mcbReady m).pmBusy = m.pmBusy ∧ (mcbReady m).pmInitialised = m.pmInitialised ∧
      (mcbReady m).pmEnd = m.pmEnd := by
    rcases mcbReady_cases m with ⟨-, hr⟩ | ⟨-, hr⟩ <;> rw [hr] <;> exact ⟨rfl, rfl, rfl⟩
  unfold mcbAllocate mcbAllocateIn at h
  dsimp only at h
  rcases hfind : mcbFindFree (mcbReady m).mem need with _ | ⟨seg, largest⟩
  · rw [hfind] at h
    cases h
  · rw [hfind] at h
    dsimp only at h
    have hlt : seg < 65536 := mcbWalk_lt _ need (by decide) hfind
    split_ifs at h with hseg
    · cases h
      exact ⟨hready.1, hready.2.1, hready.2.2, fun h => absurd rfl h⟩
    · cases h
      refine ⟨hready.1, hready.2.1, hready.2.2, fun hne => ?_⟩
      dsimp only at hne ⊢
      omega

theorem leAllocateLow_pm {n : Nat} {a : Machine × Nat} (h : leAllocateLow m n = some a) :
    a.1.pmBusy = m.pmBusy ∧ a.1.pmInitialised = m.pmInitialised ∧ a.1.pmEnd = m.pmEnd ∧
      (a.2 ≠ 0 → 2 ≤ a.2 ∧ a.2 < 65536) := by
  unfold leAllocateLow at h
  dsimp only at h
  generalize (if lin (n + 15) / 16 = 0 then 1 else lin (n + 15) / 16) = paras at h
  split_ifs at h
  · obtain ⟨r, hr, rfl⟩ := Option.map_eq_some_iff.mp h
    exact mcbAllocate_pm hr
  · cases h
    exact ⟨rfl, rfl, rfl, fun h => absurd rfl h⟩

theorem PmPlaced.add (h : PmPlaced m objects) {o : LeObject}
    (hhigh : o.hostSeg = 0 → ∃ e ∈ m.pmBusy, e.base = o.hostBase ∧ o.virtSize ≤ e.size ∧
      NoRoomBelow PM_ARENA_START m.pmBusy e)
    (hlow : o.hostSeg ≠ 0 → o.hostBase = o.hostSeg * 16 ∧ 2 ≤ o.hostSeg ∧ o.hostSeg < 65536) :
    PmPlaced m (objects ++ [o]) where
  pm := h.pm
  high := by
    intro o' ho'
    rcases List.mem_append.mp ho' with ho' | ho'
    · exact h.high o' ho'
    · rw [List.mem_singleton.mp ho']
      exact hhigh
  low := by
    intro o' ho'
    rcases List.mem_append.mp ho' with ho' | ho'
    · exact h.low o' ho'
    · rw [List.mem_singleton.mp ho']
      exact hlow

/-- A request that is served gets the lowest place with room for it. -/
theorem PmPlaced.alloc (h : PmPlaced m objects) {n : Nat} (hpos : 0 < n) (hn : n < 4294967296) :
    (pmAlloc m n).2 = 0 ∨ PmPlaced (pmAlloc m n).1 objects ∧ ∃ e ∈ (pmAlloc m n).1.pmBusy,
      e.base = (pmAlloc m n).2 ∧ n ≤ e.size ∧ NoRoomBelow PM_ARENA_START (pmAlloc m n).1.pmBusy e := by
  have hok := (pmAlloc_spec h.pm hn).1
  rcases pmAlloc_cases h.pm hpos hn with ⟨a, busy, hcall, hperm, hgap, -, hleast⟩ | ⟨busy, hcall, -, -⟩
  · right
    rw [hcall] at hok ⊢
    have hold : ∀ e ∈ m.pmBusy, e ∈ busy ++ [⟨a, pageBytes n⟩] := fun e he =>
      List.mem_append_left _ (hperm.mem_iff.mpr he)
    refine ⟨h.grow hok hold, ⟨a, pageBytes n⟩, List.mem_append_right _ List.mem_cons_self, rfl,
      le_pageBytes n, ?_⟩
    intro b hlow hbelow hclear
    -- a lower place with room would have been taken
    have hle := hleast b ⟨hlow, le_trans (Nat.add_le_add_right hbelow.le _) hgap.high,
      fun c hc => hclear c (hold c hc)⟩
    exact absurd hbelow (not_lt.mpr hle)
  · left
    rw [hcall]

/-- One object more. -/
theorem PmPlaced.loadObject (h : PmPlaced m objects) {hd : LeHeader} {i : Nat} {m' : Machine} {o : LeObject}
    (hr : leLoadObject f le hd i m = some (m', some o)) : PmPlaced m' (objects ++ [o]) := by
  rcases leLoadObject_cases hr with ⟨hnone, -⟩ | ⟨o₀, a, ho₀, ha, ⟨-, hnone⟩ | ⟨hbase, o', mem, rfl, -, hsome⟩⟩
  · cases hnone
  · cases hnone
  · cases hsome
    have hvirt : o₀.virtSize < 4294967296 := by
      obtain ⟨v, hv, hrest⟩ := Option.bind_eq_some_iff.mp ho₀
      have hlt := rdd_lt hv
      simp only [Option.bind_eq_bind, Option.bind_eq_some_iff] at hrest
      obtain ⟨_, -, _, -, _, -, _, -, hobj⟩ := hrest
      cases hobj
      exact hlt
    obtain ⟨b, hb, ⟨hseg, rfl⟩ | ⟨hseg, rfl⟩⟩ := leAllocate_cases ha
    · obtain ⟨hbusy, hinit, hend, hrange⟩ := leAllocateLow_pm hb
      have hplaced : PmPlaced (b.1.setMem mem) objects := h.same hbusy hinit hend
      exact hplaced.add (o := { o₀ with hostSeg := b.2, hostBase := b.2 * 16 })
        (fun hz => absurd hz hseg) fun _ => ⟨rfl, (hrange hseg).1, (hrange hseg).2⟩
    · obtain ⟨hbusy, hinit, hend, -⟩ := leAllocateLow_pm hb
      have hlow := h.same hbusy hinit hend
      have hneed : (if o₀.virtSize ≠ 0 then o₀.virtSize else 16) < 4294967296 := by
        split <;> omega
      have hpos : 0 < (if o₀.virtSize ≠ 0 then o₀.virtSize else 16) := by
        split <;> omega
      have hwant : o₀.virtSize ≤ (if o₀.virtSize ≠ 0 then o₀.virtSize else 16) := by
        split <;> omega
      rcases hlow.alloc hpos hneed with hzero | ⟨hgrown, e, he, hbase', hsize, hfirst⟩
      · exact absurd hzero hbase
      · have hplaced : PmPlaced ((pmAlloc b.1 (if o₀.virtSize ≠ 0 then o₀.virtSize else 16)).1.setMem mem)
            objects := hgrown.same rfl rfl rfl
        exact hplaced.add (o := { o₀ with
          hostSeg := 0
          hostBase := (pmAlloc b.1 (if o₀.virtSize ≠ 0 then o₀.virtSize else 16)).2 })
          (fun _ => ⟨e, he, hbase', hwant.trans hsize, hfirst⟩) fun hne => absurd rfl hne

/-- However many objects have been loaded. -/
theorem Loading.placed {h : LeHeader} {m₀ : Machine} {i : Nat} (hm : PmOk m₀)
    (hl : Loading f le h m₀ i m objects) : PmPlaced m objects := by
  induction hl with
  | start => exact ⟨hm, fun o ho => absurd ho List.not_mem_nil, fun o ho => absurd ho List.not_mem_nil⟩
  | next _ _ hr ih => exact ih.loadObject hr

theorem leLoadObjects_placed (hm : PmOk m) {a : Machine} (h : leLoadObjects f le m = some (a, objects, true)) :
    PmPlaced a objects := by
  obtain ⟨hd, -, ⟨-, hl⟩ | ⟨hfail, -⟩⟩ := leLoadObjects_loading h
  · exact hl.placed hm
  · cases hfail

/-- Selectors do not matter. -/
theorem PmPlaced.of_unsel (h : PmPlaced m objects) {objects' : List LeObject}
    (hsame : objects'.map LeObject.unsel = objects.map LeObject.unsel) : PmPlaced m objects' := by
  have hmem : ∀ o' ∈ objects', ∃ o ∈ objects, o.hostSeg = o'.hostSeg ∧ o.hostBase = o'.hostBase ∧
      o.virtSize = o'.virtSize := by
    intro o' ho'
    have hin : o'.unsel ∈ objects.map LeObject.unsel := hsame ▸ List.mem_map_of_mem ho'
    obtain ⟨o, ho, heq⟩ := List.mem_map.mp hin
    simp only [LeObject.unsel, LeObject.mk.injEq] at heq
    exact ⟨o, ho, heq.2.2.2.2.2.2.1, heq.2.2.2.2.2.1, heq.2.1⟩
  refine ⟨h.pm, fun o' ho' => ?_, fun o' ho' => ?_⟩
  · obtain ⟨o, ho, hseg, hbase, hsize⟩ := hmem o' ho'
    rw [← hseg, ← hbase, ← hsize]
    exact h.high o ho
  · obtain ⟨o, ho, hseg, hbase, -⟩ := hmem o' ho'
    rw [← hseg, ← hbase]
    exact h.low o ho

theorem installDescriptors_pm (objects : List LeObject) : ∀ (idx : Nat) (m : Machine),
    (installDescriptors idx objects m).1.pmBusy = m.pmBusy ∧
      (installDescriptors idx objects m).1.pmInitialised = m.pmInitialised ∧
      (installDescriptors idx objects m).1.pmEnd = m.pmEnd := by
  induction objects with
  | nil => exact fun _ _ => ⟨rfl, rfl, rfl⟩
  | cons o objects ih => exact fun idx m => ih (idx + 1) _

theorem PmPlaced.install (h : PmPlaced m objects) {d : Machine} {objects' : List LeObject}
    (hi : leInstallDescriptors m objects = some (d, objects')) : PmPlaced d objects' := by
  have hsame := leInstallDescriptors_unsel hi
  unfold leInstallDescriptors at hi
  dsimp only at hi
  split at hi
  · cases hi
  · cases hi
    obtain ⟨hbusy, hinit, hend⟩ := installDescriptors_pm (objects.take (objects.length % 65536))
      (ldtFindRun m (objects.length % 65536)) m
    exact (h.of_unsel hsame).same hbusy hinit hend

end Placed

end Dosiz.Le
