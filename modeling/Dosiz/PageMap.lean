/-
  Dosiz/PageMap.lean
  ==================
  **Saving and restoring the page map** (AH=47 and AH=48 of INT 67h).

  AH=47 notes the handle and the logical page of each slot; AH=48 sends the four pairs
  through `ems_map` again and drops its answers.  A slot that was not mapped is noted as
  handle 0xFFFF, which `ems_map` refuses, and so it does a page that its handle has lost; and a
  page is copied from the pool before the slots behind it are written back.
  `pageMap_restored_iff` says, for every state of the expanded memory, that nothing else goes
  wrong, whatever was mapped and written in between.
-/
import Dosiz.EmsPages

namespace Dosiz.Ems

open ByteMemory Machine CopyFlush Transition

/-! ### The functions of the source -/

/-- AH=47: save the page map for handle DX. -/
def int67_47 (m : Machine) : Machine :=
  match m.ems.handles.lookup m.dx with
  | none => m.setR8h .eax 0x83
  | some H =>
    if H.mapSaved then m.setR8h .eax 0x8D
    else
      let H' : EmsHandle :=
        { H with
          mapSaved := true
          savedH := m.ems.slotH
          savedP := m.ems.slotP }
      ({ m with ems := { m.ems with handles := m.ems.handles.insert m.dx H' } } : Machine).setR8h .eax 0

/-- The loop of AH=48; what `ems_map` answers is dropped. -/
def emsRestore (savedH savedP : Nat → Nat) : List Nat → Machine → Machine
  | [], m => m
  | s :: ss, m => emsRestore savedH savedP ss (emsMap m s (savedH s) (savedP s)).1

/-- AH=48: restore the page map for handle DX. -/
def int67_48 (m : Machine) : Machine :=
  match m.ems.handles.lookup m.dx with
  | none => m.setR8h .eax 0x83
  | some H =>
    if H.mapSaved = false then m.setR8h .eax 0x8E
    else
      let m' := emsRestore H.savedH H.savedP [0, 1, 2, 3] m
      ({ m' with ems := { m'.ems with
          handles := m'.ems.handles.insert m.dx { H with mapSaved := false } } } : Machine).setR8h .eax 0

/-! ### What a restore is for -/

/-- `m` has the page map of `m₀` again; `c` is what was written last in each page of the pool. -/
structure Restored (m₀ : Machine) (c : Nat → Page) (m : Machine) : Prop where
  status : m.r8h .eax = 0
  mapped : ∀ s ≤ 3, m₀.ems.slotPool s ≠ 0xFFFF →
    m.ems.slotH s = m₀.ems.slotH s ∧ m.ems.slotP s = m₀.ems.slotP s ∧
      ∃ j, (mirror m).loaded s = some j ∧ Owns m (m₀.ems.slotH s) (m₀.ems.slotP s) j ∧
        page m.mem (slotAddr s) = c j
  unmapped : ∀ s ≤ 3, m₀.ems.slotPool s = 0xFFFF → m.ems.slotPool s = 0xFFFF ∧
    ∀ (i : Fin EMS_PAGE_SIZE) (b : UInt8) (j : Nat) (d : Page), CopyFlush.Holds (mirror m) j d →
      CopyFlush.Holds (mirror { m with mem := writeb m.mem (slotAddr s + i) b.toNat }) j d

/-- The calls and writes that may come between. -/
def MapsOnly (_ : Machine) (e : EmsEvent) : Prop := ∀ c, e = .call c → c = .ah44 ∨ c = .ah50

theorem inPage (a : Nat) : (a - EMS_FRAME_BASE) % EMS_PAGE_SIZE < EMS_PAGE_SIZE := Nat.mod_lt _ (by decide)

/-- What was written last in each page, when it was `c` before the event: a byte written to a slot goes to the page
    that is open there. -/
def EmsEvent.contents (m : Machine) (e : EmsEvent) (c : Nat → Page) : Nat → Page :=
  match e with
  | .write a b =>
    if EMS_FRAME_BASE ≤ a ∧ a < EMS_FRAME_BASE + 4 * EMS_PAGE_SIZE then
      let i : Fin EMS_PAGE_SIZE := ⟨(a - EMS_FRAME_BASE) % EMS_PAGE_SIZE, inPage a⟩
      match (mirror m).loaded ((a - EMS_FRAME_BASE) / EMS_PAGE_SIZE) with
      | none => c
      | some j => Function.update c j (Function.update (c j) i b)
    else c
  | _ => c

/-- The same over a run from `m`. -/
def contentsAfter : Machine → List EmsEvent → (Nat → Page) → Nat → Page
  | _, [], c => c
  | m, e :: es, c => contentsAfter (e.next m) es (e.contents m c)

/-- The pool page of the logical page that a mapped slot names, if its handle has that page. -/
def target (m : Machine) (s : Nat) : Option Nat :=
  if m.ems.slotPool s = 0xFFFF then none
  else (m.ems.handles.lookup (m.ems.slotH s)).bind fun H => H.pages[m.ems.slotP s]?

/-- What AH=48 can replay of the map of `m₀`, when the pages have the contents `c`. -/
structure Replayable (m₀ m : Machine) (c : Nat → Page) : Prop where
  owned : ∀ s ≤ 3, m₀.ems.slotPool s ≠ 0xFFFF → target m₀ s ≠ none
  unmapped : ∀ s ≤ 3, m₀.ems.slotPool s = 0xFFFF →
    m.ems.slotPool s = 0xFFFF ∨ (m.ems.handles.lookup 0xFFFF).isSome
  -- of the slots up to `s` that have the page open, the last one has its contents; or the pool, if none has it
  current : ∀ s ≤ 3, ∀ j, target m₀ s = some j → newest (mirror m) (List.range (s + 1)) j = c j

/-! ### What a slot notes -/

/-- A slot without a page has the handle and the logical page 0xFFFF, a mapped one another logical page. -/
def Noted (m : Machine) : Prop :=
  ∀ s ≤ 3, (m.ems.slotPool s = 0xFFFF → m.ems.slotH s = 0xFFFF) ∧
    (m.ems.slotPool s = 0xFFFF ↔ m.ems.slotP s = 0xFFFF)

/-- The slots of `e'` are those of `e`. -/
def SameSlots (e e' : Ems) : Prop := e'.slotH = e.slotH ∧ e'.slotP = e.slotP ∧ e'.slotPool = e.slotPool

theorem Noted.same {m m' : Machine} (h : Noted m) (hs : SameSlots m.ems m'.ems) : Noted m' := by
  intro s
  rw [hs.1, hs.2.1, hs.2.2]
  exact h s

theorem sameSlots_allocPages : ∀ (n : Nat) (e : Ems), SameSlots e (emsAllocPages n e).1
  | 0, _ => ⟨rfl, rfl, rfl⟩
  | n + 1, e => by
    have hpage : SameSlots e (emsAllocPoolPage e).1 := by
      unfold emsAllocPoolPage
      split
      · exact ⟨rfl, rfl, rfl⟩
      · exact ⟨rfl, rfl, rfl⟩
    obtain ⟨hh, hp, hpool⟩ := sameSlots_allocPages n (emsAllocPoolPage e).1
    exact ⟨hh.trans hpage.1, hp.trans hpage.2.1, hpool.trans hpage.2.2⟩

theorem sameSlots_allocHandle (e : Ems) (pages : Nat) (allowZero : Bool) :
    SameSlots e (emsAllocHandle e pages allowZero).1 := by
  unfold emsAllocHandle
  split_ifs
  · exact ⟨rfl, rfl, rfl⟩
  · exact ⟨rfl, rfl, rfl⟩
  · exact ⟨rfl, rfl, rfl⟩
  · exact sameSlots_allocPages pages e

/-- The slots after `ems_load_slot` and the two stores behind it. -/
theorem slots_setSlot (m : Machine) {s j : Nat} (hs : s ≤ 3) (hj : j < EMS_TOTAL_PAGES ∨ j = 0xFFFF) (h lp : Nat) :
    (emsSetSlot (emsLoadSlot m s j) s h lp).ems.slotPool = Function.update m.ems.slotPool s j ∧
      (emsSetSlot (emsLoadSlot m s j) s h lp).ems.slotH = Function.update m.ems.slotH s h ∧
        (emsSetSlot (emsLoadSlot m s j) s h lp).ems.slotP = Function.update m.ems.slotP s lp := by
  have hpage : ¬ (j ≠ 0xFFFF ∧ EMS_TOTAL_PAGES ≤ j) := by
    simp only [EMS_TOTAL_PAGES] at hj ⊢
    omega
  rw [emsSetSlot, emsLoadSlot, if_neg (by omega)]
  dsimp only
  rw [if_neg hpage]
  exact ⟨rfl, rfl, rfl⟩

theorem Noted.setSlot {m : Machine} (hb : Noted m) {s j h lp : Nat} (hs : s ≤ 3)
    (hj : (j < EMS_TOTAL_PAGES ∧ lp ≠ 0xFFFF) ∨ (j = 0xFFFF ∧ h = 0xFFFF ∧ lp = 0xFFFF)) :
    Noted (emsSetSlot (emsLoadSlot m s j) s h lp) := by
  obtain ⟨hpool, hh, hp⟩ := slots_setSlot m hs (hj.imp (fun hj => hj.1) fun hj => hj.1) h lp
  intro t ht
  rw [hpool, hh, hp]
  by_cases hts : t = s
  · rw [hts, Function.update_self, Function.update_self, Function.update_self]
    rcases hj with ⟨hj, hlp⟩ | ⟨rfl, rfl, rfl⟩
    · have hne : j ≠ 0xFFFF := by
        simp only [EMS_TOTAL_PAGES] at hj
        omega
      exact ⟨fun h => absurd h hne, iff_of_false hne hlp⟩
    · exact ⟨fun _ => rfl, Iff.rfl⟩
  · rw [Function.update_of_ne hts, Function.update_of_ne hts, Function.update_of_ne hts]
    exact hb t ht

/-- Every page of a handle is a page of the pool. -/
def InPool (m : Machine) : Prop := ∀ h lp j, Owns m h lp j → j < EMS_TOTAL_PAGES

theorem owns_same {m m' : Machine} (h : SameOwners m m') {hd lp j : Nat} :
    Owns m' hd lp j ↔ Owns m hd lp j := by
  rw [Owns, Owns, h.2.1]

theorem InPool.same {m m' : Machine} (h : InPool m) (hs : SameOwners m m') : InPool m' :=
  fun hd lp j ho => h hd lp j ((owns_same hs).mp ho)

theorem Noted.emsMap {m : Machine} (hb : Noted m) (hin : InPool m) (s h lp : Nat) :
    Noted (emsMap m s h lp).1 := by
  unfold Ems.emsMap
  by_cases hs : 3 < s
  · rw [if_pos hs]
    exact hb
  rw [if_neg hs]
  cases hH : m.ems.handles.lookup h with
  | none => exact hb
  | some H =>
    dsimp only
    by_cases hlp : lp = 0xFFFF
    · rw [if_pos hlp]
      exact hb.setSlot (by omega) (.inr ⟨rfl, rfl, rfl⟩)
    · rw [if_neg hlp]
      cases hpp : H.pages[lp]? with
      | none => exact hb
      | some j => exact hb.setSlot (by omega) (.inl ⟨hin h lp j ⟨H, hH, hpp⟩, hlp⟩)

theorem Noted.emsMapTable (al dx arr : Nat) : ∀ (n i : Nat) {m : Machine}, Noted m → InPool m →
    Noted (emsMapTable al dx arr n i m).1
  | 0, _, _, hb, _ => hb
  | n + 1, i, m, hb, hin => by
    unfold Ems.emsMapTable
    dsimp only
    split_ifs with hsec hst
    · exact hb
    · exact hb.emsMap hin _ _ _
    · exact Noted.emsMapTable al dx arr n (i + 1) (hb.emsMap hin _ _ _)
        (hin.same (sameOwners_emsMap m _ _ _))

theorem Noted.emsUnmapAll (h : Nat) : ∀ {ss : List Nat} {m : Machine}, (∀ s ∈ ss, s ≤ 3) → Noted m →
    Noted (emsUnmapAll h ss m)
  | [], _, _, hb => hb
  | s :: ss, m, hss, hb => by
    unfold Ems.emsUnmapAll
    refine Noted.emsUnmapAll h (fun t ht => hss t (List.mem_cons_of_mem _ ht)) ?_
    by_cases hs : m.ems.slotH s = h
    · rw [if_pos hs]
      exact hb.setSlot (hss s List.mem_cons_self) (.inr ⟨rfl, rfl, rfl⟩)
    · rw [if_neg hs]
      exact hb

theorem Noted.resize {m : Machine} (hb : Noted m) : Noted (int67_51 m) := by
  unfold int67_51
  cases m.ems.handles.lookup m.dx with
  | none => exact hb
  | some H =>
    dsimp only
    split_ifs
    · exact hb
    · exact hb.same (sameSlots_allocPages _ m.ems)
    · exact hb
    · exact hb

theorem Noted.serve {m : Machine} (hb : Noted m) (hin : InPool m) (c : EmsCall) : Noted (c.serve m) := by
  have halloc : ∀ allowZero, Noted (int67_alloc m allowZero) := by
    intro allowZero
    have hslots := sameSlots_allocHandle m.ems m.bx allowZero
    unfold int67_alloc
    dsimp only
    split_ifs
    · exact hb.same hslots
    · exact hb.same hslots
  cases c with
  | ah43 => exact halloc false
  | ah5A => exact halloc true
  | ah44 => exact hb.emsMap hin _ _ _
  | ah45 =>
    simp only [EmsCall.serve, int67_45]
    cases m.ems.handles.lookup m.dx with
    | none => exact hb
    | some H =>
      dsimp only
      split_ifs
      · exact hb
      · exact @Noted.emsUnmapAll m.dx [0, 1, 2, 3] m (by decide) hb
  | ah50 =>
    simp only [EmsCall.serve, int67_50]
    cases m.ems.handles.lookup m.dx with
    | none => exact hb
    | some H =>
      dsimp only
      split_ifs
      · exact hb
      · exact Noted.emsMapTable _ _ _ _ 0 hb hin
  | ah51 => exact hb.resize

theorem Noted.next {m : Machine} (hb : Noted m) (hin : InPool m) (e : EmsEvent) : Noted (e.next m) := by
  cases e with
  | regs cpu => exact hb
  | write a b => exact hb
  | call c => exact hb.serve hin c

/-! ### The pages of the handles -/

theorem InPool.alloc {m : Machine} (h : InPool m) (allowZero : Bool) : InPool (int67_alloc m allowZero) := by
  unfold int67_alloc
  rcases emsAllocHandle_cases m.ems m.bx allowZero with ⟨he, hst⟩ | ⟨e', js, hg, -, heq⟩
  · have hst₀ : (emsAllocHandle m.ems m.bx allowZero).2.1 ≠ 0 := fun h => hst (by rw [h])
    simp only [he, if_neg hst₀]
    exact h
  · simp only [heq, if_true]
    rintro a lp j ⟨H, hH, hj⟩
    have hH' : (m.ems.handles.insert m.ems.nextHandle
        ⟨js, false, fun _ => 0xFFFF, fun _ => 0xFFFF⟩).lookup a = some H := hH
    by_cases ha : a = m.ems.nextHandle
    · rw [ha, AList.lookup_insert] at hH'
      cases hH'
      exact hg.range j (List.mem_of_getElem? hj)
    · rw [AList.lookup_insert_ne ha] at hH'
      exact h a lp j ⟨H, hH', hj⟩

theorem InPool.free {m : Machine} (h : InPool m) : InPool (int67_45 m) := by
  unfold int67_45
  cases hH : m.ems.handles.lookup m.dx with
  | none => exact h
  | some H =>
    dsimp only
    split_ifs
    · exact h
    · have hsame := sameOwners_emsUnmapAll m.dx [0, 1, 2, 3] m
      rintro a lp j ⟨K, hK, hj⟩
      have hK' : ((emsUnmapAll m.dx [0, 1, 2, 3] m).ems.handles.erase m.dx).lookup a = some K := hK
      rw [hsame.2.1] at hK'
      by_cases ha : a = m.dx
      · rw [ha, AList.lookup_erase] at hK'
        cases hK'
      · rw [AList.lookup_erase_ne ha] at hK'
        exact h a lp j ⟨K, hK', hj⟩

theorem InPool.resize {m : Machine} (h : InPool m) : InPool (int67_51 m) := by
  -- the handle's new entry has pages of the pool
  have hset : ∀ (e : Ems) (H' : EmsHandle), (∀ j ∈ H'.pages, j < EMS_TOTAL_PAGES) →
      InPool { m with ems := { e with handles := m.ems.handles.insert m.dx H' } } := by
    rintro e H' hpages a lp j ⟨K, hK, hj⟩
    have hK' : (m.ems.handles.insert m.dx H').lookup a = some K := hK
    by_cases ha : a = m.dx
    · rw [ha, AList.lookup_insert] at hK'
      cases hK'
      exact hpages j (List.mem_of_getElem? hj)
    · rw [AList.lookup_insert_ne ha] at hK'
      exact h a lp j ⟨K, hK', hj⟩
  unfold int67_51
  cases hH : m.ems.handles.lookup m.dx with
  | none => exact h
  | some H =>
    have hold : ∀ j ∈ H.pages, j < EMS_TOTAL_PAGES := by
      intro j hj
      obtain ⟨lp, hlp⟩ := List.mem_iff_getElem?.mp hj
      exact h m.dx lp j ⟨H, hH, hlp⟩
    dsimp only
    split_ifs with hroom hgrow hcut
    · exact h
    · have hle : emsPagesAllocated m.ems ≤ EMS_TOTAL_PAGES := by
        have := List.countP_le_length (p := m.ems.poolUsed) (l := List.range EMS_TOTAL_PAGES)
        rwa [List.length_range] at this
      obtain ⟨-, hg⟩ := emsAllocPages_spec (m.bx - H.pages.length % 65536) (e := m.ems) (by omega)
      have hsame : (emsAllocPages (m.bx - H.pages.length % 65536) m.ems).1.handles = m.ems.handles := by
        rw [hg.same]
      rw [hsame]
      refine hset _ _ fun j hj => ?_
      rcases List.mem_append.mp hj with hj | hj
      · exact hold j hj
      · exact hg.range j hj
    · exact hset _ _ fun j hj => hold j (List.mem_of_mem_take hj)
    · exact h

theorem InPool.serve {m : Machine} (h : InPool m) (c : EmsCall) : InPool (c.serve m) := by
  cases c with
  | ah43 => exact h.alloc false
  | ah5A => exact h.alloc true
  | ah44 => exact h.same (sameOwners_emsMap m _ _ _)
  | ah45 => exact h.free
  | ah50 =>
    simp only [EmsCall.serve, int67_50]
    cases m.ems.handles.lookup m.dx with
    | none => exact h
    | some H =>
      dsimp only
      split_ifs
      · exact h
      · exact h.same (sameOwners_emsMapTable _ _ _ _ 0 m)
  | ah51 => exact h.resize

/-- What holds of every state of the expanded memory. -/
structure EmsSound (m : Machine) : Prop where
  inPool : InPool m
  noted : Noted m

theorem EmsSound.next {m : Machine} (h : EmsSound m) (e : EmsEvent) : EmsSound (e.next m) := by
  refine ⟨?_, h.noted.next h.inPool e⟩
  cases e with
  | regs cpu => exact h.inPool
  | write a b => exact h.inPool
  | call c => exact h.inPool.serve c

/-! ### AH=47 -/

/-- A change of a handle's entry that leaves its pages. -/
theorem owns_insert {m : Machine} {h : Nat} {H : EmsHandle} (H' : EmsHandle)
    (hH : m.ems.handles.lookup h = some H) (hp : H'.pages = H.pages) {hd lp j : Nat} :
    Owns { m with ems := { m.ems with handles := m.ems.handles.insert h H' } } hd lp j ↔ Owns m hd lp j := by
  unfold Owns
  dsimp only
  by_cases hd' : hd = h
  · subst hd'
    rw [AList.lookup_insert, hH]
    constructor
    · rintro ⟨_, ⟨⟩, hj⟩
      exact ⟨H, rfl, hp ▸ hj⟩
    · rintro ⟨_, ⟨⟩, hj⟩
      exact ⟨H', rfl, hp ▸ hj⟩
  · rw [AList.lookup_insert_ne hd']

/-- An AH=47 that succeeds notes the slots and changes nothing else of the expanded memory. -/
theorem int67_47_saves {m : Machine} (h : (int67_47 m).r8h .eax = 0) :
    ∃ H, m.ems.handles.lookup m.dx = some H ∧ int67_47 m =
      ({ m with ems := { m.ems with
          handles := m.ems.handles.insert m.dx ⟨H.pages, true, m.ems.slotH, m.ems.slotP⟩ } } : Machine).setR8h
        .eax 0 := by
  unfold int67_47 at h ⊢
  cases hH : m.ems.handles.lookup m.dx with
  | none =>
    rw [hH] at h
    dsimp only at h
    rw [r8h_setR8h] at h
    cases h
  | some H =>
    rw [hH] at h
    dsimp only at h ⊢
    by_cases hs : H.mapSaved = true
    · rw [if_pos hs, r8h_setR8h] at h
      cases h
    · rw [if_neg hs]
      exact ⟨H, rfl, rfl⟩

/-! ### The states of the expanded memory -/

/-- The calls of INT 67h that allocate, map and give back, AH=47 and AH=48, the guest's own code; and whatever else
    leaves the handles and the slots as they are, such as AH=57. -/
inductive MapEvent where
  | ems (e : EmsEvent)
  | save
  | restore
  | other (m : Machine)

def mapStep (m : Machine) (e : MapEvent) (m' : Machine) : Prop :=
  match e with
  | .ems e => m' = e.next m
  | .save => m' = int67_47 m
  | .restore => m' = int67_48 m
  | .other q => q.ems.handles = m.ems.handles ∧ SameSlots m.ems q.ems ∧ m' = q

theorem EmsSound.emsRestore (H P : Nat → Nat) : ∀ {ss : List Nat} {m : Machine}, EmsSound m →
    EmsSound (Ems.emsRestore H P ss m)
  | [], _, h => h
  | s :: ss, m, h => by
    have hsame := sameOwners_emsMap m s (H s) (P s)
    exact @EmsSound.emsRestore H P ss _ ⟨h.inPool.same hsame, h.noted.emsMap h.inPool s (H s) (P s)⟩

theorem emsRestore_sameOwners (H P : Nat → Nat) : ∀ (ss : List Nat) (m : Machine),
    SameOwners m (emsRestore H P ss m)
  | [], _ => ⟨rfl, rfl, rfl⟩
  | s :: ss, m => (sameOwners_emsMap m s (H s) (P s)).trans (emsRestore_sameOwners H P ss _)

/-- A change of a handle's entry that leaves its pages. -/
theorem EmsSound.insert {m : Machine} (h : EmsSound m) {hd : Nat} {H : EmsHandle} (H' : EmsHandle)
    (hH : m.ems.handles.lookup hd = some H) (hp : H'.pages = H.pages) :
    EmsSound { m with ems := { m.ems with handles := m.ems.handles.insert hd H' } } :=
  ⟨fun a lp j ho => h.inPool a lp j ((owns_insert H' hH hp).mp ho), h.noted.same ⟨rfl, rfl, rfl⟩⟩

theorem mapStep_sound {m m' : Machine} {e : MapEvent} (h : EmsSound m) (hs : mapStep m e m') : EmsSound m' := by
  cases e with
  | ems e =>
    obtain rfl := hs
    exact h.next e
  | save =>
    obtain rfl := hs
    unfold int67_47
    cases hH : m.ems.handles.lookup m.dx with
    | none => exact ⟨h.inPool, h.noted⟩
    | some H =>
      dsimp only
      split_ifs
      · exact ⟨h.inPool, h.noted⟩
      · have hset := h.insert { H with mapSaved := true, savedH := m.ems.slotH, savedP := m.ems.slotP } hH rfl
        exact ⟨hset.inPool, hset.noted⟩
  | restore =>
    obtain rfl := hs
    unfold int67_48
    cases hH : m.ems.handles.lookup m.dx with
    | none => exact ⟨h.inPool, h.noted⟩
    | some H =>
      dsimp only
      split_ifs
      · exact ⟨h.inPool, h.noted⟩
      · have hsame := emsRestore_sameOwners H.savedH H.savedP [0, 1, 2, 3] m
        have hback := @EmsSound.emsRestore H.savedH H.savedP [0, 1, 2, 3] m h
        have hH' : (Ems.emsRestore H.savedH H.savedP [0, 1, 2, 3] m).ems.handles.lookup m.dx = some H := by
          rw [hsame.2.1]
          exact hH
        have hset := hback.insert { H with mapSaved := false } hH' rfl
        exact ⟨hset.inPool, hset.noted⟩
  | other q =>
    obtain ⟨hh, hslots, rfl⟩ := hs
    refine ⟨?_, h.noted.same hslots⟩
    rintro a lp j ⟨H, hH, hj⟩
    exact h.inPool a lp j ⟨H, hh ▸ hH, hj⟩

/-- Every state from boot on is in order. -/
theorem run_sound {es : List MapEvent} {m : Machine} (hrun : Run mapStep bootMachine es m) : EmsSound m := by
  refine hrun.invariant (fun _ _ _ => mapStep_sound) ⟨?_, fun s _ => ⟨fun _ => rfl, iff_of_true rfl rfl⟩⟩
  rintro a lp j ⟨H, hH, -⟩
  cases hH

/-! ### The calls in between -/

theorem MapsOnly.sameOwners {m : Machine} {e : EmsEvent} (h : MapsOnly m e) : SameOwners m (e.next m) := by
  cases e with
  | regs cpu => exact ⟨rfl, rfl, rfl⟩
  | write a b => exact ⟨rfl, rfl, rfl⟩
  | call c =>
    rcases h c rfl with rfl | rfl
    · exact sameOwners_emsMap m _ _ _
    · simp only [EmsEvent.next, EmsCall.serve, int67_50]
      cases m.ems.handles.lookup m.dx with
      | none => exact ⟨rfl, rfl, rfl⟩
      | some H =>
        dsimp only
        split_ifs
        · exact ⟨rfl, rfl, rfl⟩
        · exact sameOwners_emsMapTable _ _ _ _ 0 m

theorem run_mapsOnly {m m' : Machine} {es : List EmsEvent} (hrun : Guarded emsStep MapsOnly m es m') :
    SameOwners m m' := by
  induction hrun with
  | nil m => exact ⟨rfl, rfl, rfl⟩
  | cons hg hs _ ih =>
    obtain rfl := hs
    exact hg.sameOwners.trans ih

/-! ### The replay -/

theorem target_eq_some {m : Machine} {s j : Nat} : target m s = some j ↔
    m.ems.slotPool s ≠ 0xFFFF ∧ Owns m (m.ems.slotH s) (m.ems.slotP s) j := by
  unfold target Owns
  split_ifs with hm
  · exact iff_of_false (fun h => by cases h) fun h => h.1 hm
  · rw [Option.bind_eq_some_iff]
    exact (and_iff_right hm).symm

/-- The handles have the pages that they had in `m₀`. -/
structure CanReplay (m₀ m : Machine) : Prop where
  sound : EmsSound m₀
  owns : ∀ hd lp j, Owns m hd lp j ↔ Owns m₀ hd lp j

theorem CanReplay.same {m₀ m m' : Machine} (h : CanReplay m₀ m) (hs : SameOwners m m') : CanReplay m₀ m' :=
  ⟨h.sound, fun hd lp j => (owns_same hs).trans (h.owns hd lp j)⟩

/-- The pair noted for slot `s` is one that `ems_map` takes. -/
def taken (m₀ m : Machine) (s : Nat) : Bool :=
  if m₀.ems.slotPool s = 0xFFFF then (m.ems.handles.lookup 0xFFFF).isSome else (target m₀ s).isSome

theorem taken_same {m₀ m m' : Machine} (h : SameOwners m m') : taken m₀ m' = taken m₀ m := by
  funext s
  rw [taken, taken, h.2.1]

theorem taken_of_target {m₀ m : Machine} {s j : Nat} (h : target m₀ s = some j) : taken m₀ m s = true := by
  rw [taken, if_neg (target_eq_some.mp h).1, h]
  rfl

theorem emsMap_refused {m₀ m : Machine} (h : CanReplay m₀ m) {s : Nat} (hs : s ≤ 3) (ht : taken m₀ m s = false) :
    (emsMap m s (m₀.ems.slotH s) (m₀.ems.slotP s)).1 = m := by
  obtain ⟨hblank, hlp⟩ := h.sound.noted s hs
  rw [emsMap, if_neg (by omega)]
  by_cases hm : m₀.ems.slotPool s = 0xFFFF
  · rw [taken, if_pos hm] at ht
    have hnone : m.ems.handles.lookup 0xFFFF = none := by simpa using ht
    rw [hblank hm, hnone]
  · rw [taken, if_neg hm] at ht
    have hnone : target m₀ s = none := by simpa using ht
    cases hH : m.ems.handles.lookup (m₀.ems.slotH s) with
    | none => rfl
    | some H =>
      dsimp only
      rw [if_neg fun h => hm (hlp.mpr h)]
      cases hj : H.pages[m₀.ems.slotP s]? with
      | none => rfl
      | some j =>
        have hsome := target_eq_some.mpr ⟨hm, (h.owns _ _ _).mp ⟨H, hH, hj⟩⟩
        rw [hnone] at hsome
        cases hsome

/-- A pair that is taken gives the slot its page of `m₀` again. -/
theorem emsMap_taken {m₀ m : Machine} (h : CanReplay m₀ m) {s : Nat} (hs : s ≤ 3) (ht : taken m₀ m s = true) :
    ∃ j, (j < EMS_TOTAL_PAGES ∨ j = 0xFFFF) ∧
      (emsMap m s (m₀.ems.slotH s) (m₀.ems.slotP s)).1 =
        emsSetSlot (emsLoadSlot m s j) s (m₀.ems.slotH s) (m₀.ems.slotP s) ∧
      mirror (emsMap m s (m₀.ems.slotH s) (m₀.ems.slotP s)).1 = put (mirror m) s (target m₀ s) := by
  obtain ⟨hblank, hlp⟩ := h.sound.noted s hs
  by_cases hm : m₀.ems.slotPool s = 0xFFFF
  · rw [taken, if_pos hm] at ht
    obtain ⟨K, hK⟩ := Option.isSome_iff_exists.mp ht
    have hmap : emsMap m s (m₀.ems.slotH s) (m₀.ems.slotP s) =
        (emsSetSlot (emsLoadSlot m s 0xFFFF) s 0xFFFF 0xFFFF, 0) := by
      rw [emsMap, if_neg (by omega), hblank hm, hlp.mp hm, hK]
      exact if_pos rfl
    have hnone : target m₀ s = none := if_pos hm
    refine ⟨0xFFFF, .inr rfl, by rw [hmap, hblank hm, hlp.mp hm], ?_⟩
    rw [hmap, hnone]
    exact mirror_unload m hs
  · rw [taken, if_neg hm] at ht
    obtain ⟨j, hj⟩ := Option.isSome_iff_exists.mp ht
    have hown := (target_eq_some.mp hj).2
    have hlt := h.sound.inPool _ _ _ hown
    obtain ⟨H, hH, hpage⟩ := (h.owns _ _ _).mpr hown
    have hmap : emsMap m s (m₀.ems.slotH s) (m₀.ems.slotP s) =
        (emsSetSlot (emsLoadSlot m s j) s (m₀.ems.slotH s) (m₀.ems.slotP s), 0) := by
      rw [emsMap, if_neg (by omega), hH]
      dsimp only
      rw [if_neg fun h => hm (hlp.mpr h), hpage]
    refine ⟨j, .inl hlt, by rw [hmap], ?_⟩
    rw [hmap, hj]
    exact mirror_load m hs hlt

/-- AH=48's loop replays the pairs that are taken. -/
theorem mirror_emsRestore {m₀ : Machine} : ∀ {ss : List Nat} {m : Machine}, CanReplay m₀ m → (∀ s ∈ ss, s ≤ 3) →
    mirror (emsRestore m₀.ems.slotH m₀.ems.slotP ss m) =
      replay (target m₀) (ss.filter (taken m₀ m)) (mirror m)
  | [], _, _, _ => rfl
  | s :: ss, m, h, hss => by
    have hs := hss s List.mem_cons_self
    have hsame := sameOwners_emsMap m s (m₀.ems.slotH s) (m₀.ems.slotP s)
    have ih := mirror_emsRestore (h.same hsame) fun t ht => hss t (List.mem_cons_of_mem s ht)
    rw [Ems.emsRestore, ih, taken_same hsame]
    cases ht : taken m₀ m s with
    | false => rw [List.filter_cons_of_neg (by simp [ht]), emsMap_refused h hs ht]
    | true =>
      obtain ⟨-, -, -, hput⟩ := emsMap_taken h hs ht
      rw [List.filter_cons_of_pos ht, hput]
      rfl

theorem emsMap_other (m : Machine) {s t : Nat} (h lp : Nat) (hts : t ≠ s) :
    (emsMap m s h lp).1.ems.slotH t = m.ems.slotH t ∧ (emsMap m s h lp).1.ems.slotP t = m.ems.slotP t := by
  have hset : ∀ j a b, (emsSetSlot (emsLoadSlot m s j) s a b).ems.slotH t = m.ems.slotH t ∧
      (emsSetSlot (emsLoadSlot m s j) s a b).ems.slotP t = m.ems.slotP t := by
    intro j a b
    obtain ⟨pool, slotPool, he⟩ := emsLoadSlot_ems m s j
    simp only [emsSetSlot, he, Function.update_of_ne hts, and_self]
  unfold emsMap
  by_cases hs : 3 < s
  · rw [if_pos hs]
    exact ⟨rfl, rfl⟩
  rw [if_neg hs]
  cases m.ems.handles.lookup h with
  | none => exact ⟨rfl, rfl⟩
  | some H =>
    dsimp only
    by_cases hlp : lp = 0xFFFF
    · rw [if_pos hlp]
      exact hset _ _ _
    · rw [if_neg hlp]
      cases H.pages[lp]? with
      | none => exact ⟨rfl, rfl⟩
      | some j => exact hset _ _ _

/-- What is noted of a slot that is not replayed stays. -/
theorem emsRestore_off (H P : Nat → Nat) {t : Nat} : ∀ {ss : List Nat} {m : Machine}, t ∉ ss →
    (emsRestore H P ss m).ems.slotH t = m.ems.slotH t ∧ (emsRestore H P ss m).ems.slotP t = m.ems.slotP t
  | [], _, _ => ⟨rfl, rfl⟩
  | s :: ss, m, ht => by
    obtain ⟨hts, htn⟩ := not_or.mp (List.mem_cons.not.mp ht)
    have hmap := emsMap_other m (H s) (P s) hts
    have hrest := emsRestore_off H P (m := (emsMap m s (H s) (P s)).1) htn
    exact ⟨hrest.1.trans hmap.1, hrest.2.trans hmap.2⟩

/-- What is noted of a slot that is replayed is what was noted in `m₀`. -/
theorem emsRestore_slot {m₀ : Machine} {t : Nat} {ss : List Nat} : ∀ {m : Machine}, CanReplay m₀ m →
    (∀ s ∈ ss, s ≤ 3) → ss.Nodup → t ∈ ss → taken m₀ m t = true →
      (emsRestore m₀.ems.slotH m₀.ems.slotP ss m).ems.slotH t = m₀.ems.slotH t ∧
        (emsRestore m₀.ems.slotH m₀.ems.slotP ss m).ems.slotP t = m₀.ems.slotP t := by
  induction ss with
  | nil =>
    intro m _ _ _ hin
    cases hin
  | cons s ss ih =>
    intro m h hss hnd hin ht
    obtain ⟨hsn, hnds⟩ := List.nodup_cons.mp hnd
    have hs := hss s List.mem_cons_self
    rw [emsRestore]
    rcases List.mem_cons.mp hin with rfl | hin
    · obtain ⟨j, hj, heq, -⟩ := emsMap_taken h hs ht
      obtain ⟨-, hh, hp⟩ := slots_setSlot m hs hj (m₀.ems.slotH t) (m₀.ems.slotP t)
      have hoff := emsRestore_off m₀.ems.slotH m₀.ems.slotP
        (m := (emsMap m t (m₀.ems.slotH t) (m₀.ems.slotP t)).1) hsn
      rw [hoff.1, hoff.2, heq, hh, hp]
      exact ⟨Function.update_self _ _ _, Function.update_self _ _ _⟩
    · have hsame := sameOwners_emsMap m s (m₀.ems.slotH s) (m₀.ems.slotP s)
      exact ih (h.same hsame) (fun u hu => hss u (List.mem_cons_of_mem s hu)) hnds hin
        (by rwa [taken_same hsame])

/-! ### The restored map -/

/-- AH=48 is about to replay the map of `m₀`. -/
structure BeforeRestore (m₀ m : Machine) : Prop where
  can : CanReplay m₀ m
  entry : ∃ pages, m.ems.handles.lookup m.dx = some ⟨pages, true, m₀.ems.slotH, m₀.ems.slotP⟩

variable {m₀ m : Machine} {w : Window}

theorem mem_slots {p : Nat → Bool} {s : Nat} : s ∈ [0, 1, 2, 3].filter p ↔ s ≤ 3 ∧ p s = true := by
  rw [List.mem_filter]
  refine and_congr_left fun _ => ?_
  simp only [List.mem_cons, List.not_mem_nil, or_false]
  omega

theorem slots_nodup (p : Nat → Bool) : ([0, 1, 2, 3].filter p).Nodup := List.Nodup.filter p (by decide)

/-- The slots up to `s`, and those behind it. -/
theorem slots_split {p : Nat → Bool} {s : Nat} (hs : s ≤ 3) (hp : p s = true) :
    ∃ post, [0, 1, 2, 3].filter p = (List.range s).filter p ++ s :: post ∧
      (List.range (s + 1)).filter p = (List.range s).filter p ++ [s] := by
  refine ⟨(List.range' (s + 1) (3 - s)).filter p, ?_, ?_⟩
  · have hall : [0, 1, 2, 3] = List.range s ++ s :: List.range' (s + 1) (3 - s) := by
      rcases s with _ | _ | _ | _ | s
      · rfl
      · rfl
      · rfl
      · rfl
      · omega
    rw [hall, List.filter_append, List.filter_cons_of_pos hp]
  · rw [List.range_succ, List.filter_append, List.filter_cons_of_pos hp, List.filter_nil]

/-- AH=48 is its loop, the handle's entry apart. -/
theorem BeforeRestore.after (h : BeforeRestore m₀ m) :
    (int67_48 m).mem = (emsRestore m₀.ems.slotH m₀.ems.slotP [0, 1, 2, 3] m).mem ∧
      (int67_48 m).ems.pool = (emsRestore m₀.ems.slotH m₀.ems.slotP [0, 1, 2, 3] m).ems.pool ∧
      SameSlots (emsRestore m₀.ems.slotH m₀.ems.slotP [0, 1, 2, 3] m).ems (int67_48 m).ems ∧
      (int67_48 m).r8h .eax = 0 ∧ ∀ hd lp j, Owns (int67_48 m) hd lp j ↔ Owns m hd lp j := by
  obtain ⟨pages, hH⟩ := h.entry
  have hsame := emsRestore_sameOwners m₀.ems.slotH m₀.ems.slotP [0, 1, 2, 3] m
  have hH' : (emsRestore m₀.ems.slotH m₀.ems.slotP [0, 1, 2, 3] m).ems.handles.lookup m.dx =
      some ⟨pages, true, m₀.ems.slotH, m₀.ems.slotP⟩ := by
    rw [hsame.2.1]
    exact hH
  have heq : int67_48 m = ({ emsRestore m₀.ems.slotH m₀.ems.slotP [0, 1, 2, 3] m with ems :=
      { (emsRestore m₀.ems.slotH m₀.ems.slotP [0, 1, 2, 3] m).ems with
        handles := (emsRestore m₀.ems.slotH m₀.ems.slotP [0, 1, 2, 3] m).ems.handles.insert m.dx
          ⟨pages, false, m₀.ems.slotH, m₀.ems.slotP⟩ } } : Machine).setR8h .eax 0 := by
    rw [int67_48, hH]
    exact if_neg Bool.noConfusion
  rw [heq]
  -- only the entry differs, whatever the loop has come to
  generalize emsRestore m₀.ems.slotH m₀.ems.slotP [0, 1, 2, 3] m = r at hsame hH' ⊢
  refine ⟨rfl, rfl, ⟨rfl, rfl, rfl⟩, r8h_setR8h _ _ _, fun hd lp j => ?_⟩
  exact (owns_insert ⟨pages, false, m₀.ems.slotH, m₀.ems.slotP⟩ hH' rfl).trans (owns_same hsame)

/-- The slots and the pool after AH=48. -/
theorem BeforeRestore.mirror (h : BeforeRestore m₀ m) : mirror (int67_48 m) =
    replay (target m₀) ([0, 1, 2, 3].filter (taken m₀ m)) (Ems.mirror m) := by
  obtain ⟨hmem, hpool, ⟨-, -, hslot⟩, -⟩ := h.after
  rw [← mirror_emsRestore h.can (by decide), Ems.mirror, Ems.mirror, hmem, hpool, hslot]

/-- A slot whose page the handle still has is mapped to it again. -/
theorem BeforeRestore.mapped (h : BeforeRestore m₀ m) {s j : Nat} (hs : s ≤ 3) (hj : target m₀ s = some j) :
    (int67_48 m).ems.slotH s = m₀.ems.slotH s ∧ (int67_48 m).ems.slotP s = m₀.ems.slotP s ∧
      (Ems.mirror (int67_48 m)).loaded s = some j ∧
        Owns (int67_48 m) (m₀.ems.slotH s) (m₀.ems.slotP s) j := by
  have ht : taken m₀ m s = true := taken_of_target hj
  obtain ⟨-, -, ⟨hH, hP, -⟩, -, hown⟩ := h.after
  have hin : s ∈ [0, 1, 2, 3] := by
    simp only [List.mem_cons, List.not_mem_nil, or_false]
    omega
  obtain ⟨hh, hp⟩ := emsRestore_slot h.can (by decide) (by decide) hin ht
  refine ⟨by rw [hH, hh], by rw [hP, hp], ?_, (hown _ _ _).mpr ((h.can.owns _ _ _).mpr (target_eq_some.mp hj).2)⟩
  rw [h.mirror, replay_loaded (slots_nodup _) (mem_slots.mpr ⟨hs, ht⟩), hj]

/-- What such a slot shows. -/
theorem BeforeRestore.shows (h : BeforeRestore m₀ m) {s j : Nat} (hs : s ≤ 3) (hj : target m₀ s = some j) :
    page (int67_48 m).mem (slotAddr s) = newest (Ems.mirror m) ((List.range (s + 1)).filter (taken m₀ m)) j := by
  obtain ⟨post, hslots, hupto⟩ := slots_split hs (taken_of_target (m := m) hj)
  have hnd := slots_nodup (taken m₀ m)
  rw [hslots] at hnd
  have hshow := replay_shows (m := Ems.mirror m) hnd hj
  rw [← hslots, ← h.mirror] at hshow
  rw [hupto]
  exact hshow

/-- A slot that was not mapped is left as it is, unless handle 0xFFFF exists. -/
theorem BeforeRestore.unmapped_iff (h : BeforeRestore m₀ m) {s : Nat} (hs : s ≤ 3)
    (hm : m₀.ems.slotPool s = 0xFFFF) : (int67_48 m).ems.slotPool s = 0xFFFF ↔
      m.ems.slotPool s = 0xFFFF ∨ (m.ems.handles.lookup 0xFFFF).isSome := by
  have hnone : ∀ {q : Machine}, q.ems.slotPool s = 0xFFFF ↔ (Ems.mirror q).loaded s = none := by
    intro q
    constructor
    · intro hq
      exact if_neg fun hx => hx.2 hq
    · intro hq
      by_contra hne
      rw [mirror_loaded hs hne] at hq
      cases hq
  have htaken : taken m₀ m s = (m.ems.handles.lookup 0xFFFF).isSome := if_pos hm
  rw [hnone, h.mirror]
  by_cases hlive : (m.ems.handles.lookup 0xFFFF).isSome = true
  · rw [replay_loaded (slots_nodup _) (mem_slots.mpr ⟨hs, htaken.trans hlive⟩)]
    exact ⟨fun _ => .inr hlive, fun _ => if_pos hm⟩
  · rw [(replay_off fun hin => hlive (htaken ▸ (mem_slots.mp hin).2)).1, hnone]
    exact ⟨.inl, fun h => h.resolve_right hlive⟩

/-- A slot that is open is replayed, where the map can be. -/
theorem taken_of_loaded {t j : Nat} (howned : ∀ s ≤ 3, m₀.ems.slotPool s ≠ 0xFFFF → target m₀ s ≠ none)
    (hunmapped : ∀ s ≤ 3, m₀.ems.slotPool s = 0xFFFF →
      m.ems.slotPool s = 0xFFFF ∨ (m.ems.handles.lookup 0xFFFF).isSome)
    (hl : (mirror m).loaded t = some j) : taken m₀ m t = true := by
  obtain ⟨ht, hopen⟩ := slot_of_loaded hl
  unfold taken
  split_ifs with hm
  · exact (hunmapped t ht hm).resolve_left hopen
  · exact Option.isSome_iff_ne_none.mpr (howned t ht hm)

/-- A write to a slot without a page reaches no page. -/
theorem unmapped_write {s : Nat} (hm : m.ems.slotPool s = 0xFFFF) (i : Fin EMS_PAGE_SIZE) (b : UInt8) {j : Nat}
    {d : Page} (h : CopyFlush.Holds (mirror m) j d) :
    CopyFlush.Holds (mirror { m with mem := writeb m.mem (slotAddr s + i) b.toNat }) j d := by
  rw [mirror_write]
  refine write_holds_of_ne ?_ h
  have hnone : (mirror m).loaded s = none := if_neg fun hx => hx.2 hm
  rw [hnone]
  exact fun h => by cases h

/-- AH=47, then calls that map and writes: AH=48 finds the map of AH=47. -/
theorem beforeRestore {es : List EmsEvent} (hsound : EmsSound m₀) (h47 : (int67_47 m₀).r8h .eax = 0)
    (hrun : Guarded emsStep MapsOnly (int67_47 m₀) es m) (hdx : m.dx = m₀.dx) : BeforeRestore m₀ m := by
  obtain ⟨H, hH, heq⟩ := int67_47_saves h47
  have hsame := run_mapsOnly hrun
  rw [heq] at hsame
  refine ⟨⟨hsound, fun hd lp j => ?_⟩, H.pages, ?_⟩
  · exact (owns_same hsame).trans (owns_insert ⟨H.pages, true, m₀.ems.slotH, m₀.ems.slotP⟩ hH rfl)
  · rw [hsame.2.1, hdx]
    exact AList.lookup_insert _

theorem BeforeRestore.restored_iff (h : BeforeRestore m₀ m) (c : Nat → Page) :
    Restored m₀ c (int67_48 m) ↔ Replayable m₀ m c := by
  -- what a restored slot shows, where the map can be replayed
  have hshows : (∀ s ≤ 3, m₀.ems.slotPool s ≠ 0xFFFF → target m₀ s ≠ none) →
      (∀ s ≤ 3, m₀.ems.slotPool s = 0xFFFF →
        m.ems.slotPool s = 0xFFFF ∨ (m.ems.handles.lookup 0xFFFF).isSome) →
      ∀ s ≤ 3, ∀ j, target m₀ s = some j →
        page (int67_48 m).mem (slotAddr s) = newest (Ems.mirror m) (List.range (s + 1)) j := by
    intro howned hunmapped s hs j hj
    rw [h.shows hs hj]
    exact newest_filter fun t _ hl => taken_of_loaded howned hunmapped hl
  constructor
  · intro hr
    have howned : ∀ s ≤ 3, m₀.ems.slotPool s ≠ 0xFFFF → target m₀ s ≠ none := by
      intro s hs hm hnone
      obtain ⟨-, -, j, -, hown, -⟩ := hr.mapped s hs hm
      have hown₀ := (h.can.owns _ _ _).mp ((h.after.2.2.2.2 _ _ _).mp hown)
      rw [target_eq_some.mpr ⟨hm, hown₀⟩] at hnone
      cases hnone
    have hunmapped : ∀ s ≤ 3, m₀.ems.slotPool s = 0xFFFF →
        m.ems.slotPool s = 0xFFFF ∨ (m.ems.handles.lookup 0xFFFF).isSome :=
      fun s hs hm => (h.unmapped_iff hs hm).mp (hr.unmapped s hs hm).1
    refine ⟨howned, hunmapped, fun s hs j hj => ?_⟩
    obtain ⟨-, -, k, hk, -, hpage⟩ := hr.mapped s hs (target_eq_some.mp hj).1
    obtain rfl : k = j := Option.some.inj (hk.symm.trans (h.mapped hs hj).2.2.1)
    rw [← hpage]
    exact (hshows howned hunmapped s hs k hj).symm
  · intro hc
    refine ⟨h.after.2.2.2.1, fun s hs hm => ?_, fun s hs hm => ?_⟩
    · obtain ⟨j, hj⟩ := Option.ne_none_iff_exists'.mp (hc.owned s hs hm)
      obtain ⟨hh, hp, hl, hown⟩ := h.mapped hs hj
      exact ⟨hh, hp, j, hl, hown, (hshows hc.owned hc.unmapped s hs j hj).trans (hc.current s hs j hj)⟩
    · have hnone := (h.unmapped_iff hs hm).mpr (hc.unmapped s hs hm)
      exact ⟨hnone, fun i b j d => unmapped_write hnone i b⟩

/-- **Restoring the page map.**  In a state of the expanded memory AH=47 has succeeded, and since then the program
    has mapped pages and written wherever it likes.  AH=48 brings the map back, every slot with the latest contents of
    its page, exactly if every mapped slot names a page that its handle had, the slots that were not mapped
    are not mapped now (or the number 0xFFFF is a handle's), and of the slots up to its own that have a page
    open the last one has its latest contents, or the pool where none has it. -/
theorem pageMap_restored_iff {es₀ : List MapEvent} {es : List EmsEvent} (h₀ : Run mapStep bootMachine es₀ m₀)
    (h47 : (int67_47 m₀).r8h .eax = 0) (hrun : Guarded emsStep MapsOnly (int67_47 m₀) es m)
    (hdx : m.dx = m₀.dx) (c₀ : Nat → Page) :
    Restored m₀ (contentsAfter (int67_47 m₀) es c₀) (int67_48 m) ↔
      Replayable m₀ m (contentsAfter (int67_47 m₀) es c₀) :=
  (beforeRestore (run_sound h₀) h47 hrun hdx).restored_iff _

/-! ### A map that is not restored -/

/-- AH=44 for a page of handle 1 and slot 0. -/
def remap (lp : BitVec 32) : List EmsEvent := [.regs (emsCpu lp 1), .call .ah44]

/-- The machine after the events, from `m`. -/
def eventsFrom (m : Machine) (es : List EmsEvent) : Machine := es.foldl EmsEvent.next m

/-- A handle of one page that nobody has mapped. -/
def oneHandle : Machine := machineAfter [.regs (emsCpu 1 0), .call .ah43]

theorem run_remap (m : Machine) (lp : BitVec 32) :
    Guarded emsStep MapsOnly m (remap lp) (eventsFrom m (remap lp)) := by
  refine .cons (by rintro _ ⟨⟩) rfl (.cons ?_ rfl (.nil _))
  rintro _ ⟨⟩
  exact .inl rfl

/-- A handle of one page, open in slot 0 and written to. -/
def openPage : Machine := machineAfter mappedEvents

/-- A byte written to slot 0, which is then closed. -/
def writeAndClose : List EmsEvent := .write 0xE0000 0x55 :: remap 0xFFFF

theorem eventsFrom_cons (m : Machine) (e : EmsEvent) (es : List EmsEvent) :
    eventsFrom m (e :: es) = eventsFrom (e.next m) es := rfl

theorem run_writeAndClose :
    Guarded emsStep MapsOnly (int67_47 openPage) writeAndClose (eventsFrom (int67_47 openPage) writeAndClose) := by
  rw [writeAndClose, eventsFrom_cons]
  exact .cons (by rintro _ ⟨⟩) rfl (run_remap _ _)

theorem run_openPage : Run mapStep bootMachine (mappedEvents.map MapEvent.ems) openPage :=
  .cons rfl (.cons rfl (.cons rfl (.cons rfl (.cons rfl (.nil _)))))

/-- AH=44 with the page 0xFFFF closes slot 0. -/
theorem mirror_close {m : Machine} (h : (m.ems.handles.lookup 1).isSome = true) :
    mirror (eventsFrom m (remap 0xFFFF)) = unload (mirror m) 0 := by
  obtain ⟨H, hH⟩ := Option.isSome_iff_exists.mp h
  have hmap : emsMap { m with cpu := emsCpu 0xFFFF 1 } 0 1 0xFFFF =
      (emsSetSlot (emsLoadSlot { m with cpu := emsCpu 0xFFFF 1 } 0 0xFFFF) 0 0xFFFF 0xFFFF, 0) := by
    rw [emsMap, if_neg (by decide), hH]
    exact if_pos rfl
  have hcall : eventsFrom m (remap 0xFFFF) =
      (emsMap { m with cpu := emsCpu 0xFFFF 1 } 0 1 0xFFFF).1.setR8h .eax
        (emsMap { m with cpu := emsCpu 0xFFFF 1 } 0 1 0xFFFF).2 := rfl
  rw [hcall, hmap]
  exact mirror_unload { m with cpu := emsCpu 0xFFFF 1 } (show 0 ≤ 3 by decide)

theorem frame_write (m : Machine) (s : Nat) (i : Fin EMS_PAGE_SIZE) (b : UInt8) :
    (mirror { m with mem := writeb m.mem (slotAddr s + i) b.toNat }).frame s =
      Function.update ((mirror m).frame s) i b := by
  rw [mirror_write, write]
  exact Function.update_self _ _ _

/-- The closed page has the byte. -/
theorem pool_writeAndClose : (mirror (eventsFrom (int67_47 openPage) writeAndClose)).pool 0 =
    contentsAfter (int67_47 openPage) writeAndClose (fun _ => page openPage.mem (slotAddr 0)) 0 := by
  have hbyte : (mirror (EmsEvent.next (int67_47 openPage) (.write 0xE0000 0x55))).frame 0 =
      Function.update ((mirror (int67_47 openPage)).frame 0) ⟨0, by decide⟩ 0x55 :=
    frame_write (int67_47 openPage) 0 ⟨0, by decide⟩ 0x55
  have hopen : (mirror (int67_47 openPage)).loaded 0 = some 0 := by decide +kernel
  have hcontents : contentsAfter (int67_47 openPage) writeAndClose (fun _ => page openPage.mem (slotAddr 0)) 0 =
      Function.update (page openPage.mem (slotAddr 0)) ⟨0, by decide⟩ 0x55 := by
    have hin : EMS_FRAME_BASE ≤ 0xE0000 ∧ 0xE0000 < EMS_FRAME_BASE + 4 * EMS_PAGE_SIZE := by decide
    have hslot : (0xE0000 - EMS_FRAME_BASE) / EMS_PAGE_SIZE = 0 := by decide
    simp only [writeAndClose, remap, contentsAfter, EmsEvent.contents, if_pos hin, hslot, hopen,
      Function.update_self]
    rfl
  rw [hcontents, writeAndClose, eventsFrom_cons, mirror_close (by decide +kernel)]
  have hshown : (mirror (int67_47 openPage)).frame 0 = page openPage.mem (slotAddr 0) := by
    obtain ⟨H, -, heq⟩ := int67_47_saves (m := openPage) (by decide +kernel)
    rw [heq]
    rfl
  rw [hshown] at hbyte
  have hopen' : (mirror (EmsEvent.next (int67_47 openPage) (.write 0xE0000 0x55))).loaded 0 = some 0 := by
    decide +kernel
  generalize EmsEvent.next (int67_47 openPage) (.write 0xE0000 0x55) = q at hbyte hopen' ⊢
  exact (flush_of_loaded hopen').trans hbyte

/-- Page 0 is open in slot 0 when the map is saved, is written to, and is closed before the map is restored. -/
theorem pageMap_restored_iff_mapped :
    Restored openPage
      (contentsAfter (int67_47 openPage) writeAndClose fun _ => page openPage.mem (slotAddr 0))
      (int67_48 (eventsFrom (int67_47 openPage) writeAndClose)) := by
  have hclosed : ∀ s ≤ 3, (eventsFrom (int67_47 openPage) writeAndClose).ems.slotPool s = 0xFFFF := by
    decide +kernel
  refine (pageMap_restored_iff run_openPage (by decide +kernel) run_writeAndClose (by decide +kernel) _).mpr
    ⟨by decide +kernel, fun s hs _ => .inl (hclosed s hs), fun s hs j hj => ?_⟩
  have hj : j = 0 := by
    have hall : ∀ s ≤ 3, target openPage s = none ∨ target openPage s = some 0 := by decide +kernel
    rcases hall s hs with h | h
    · rw [h] at hj
      cases hj
    · exact (Option.some.inj (h.symm.trans hj)).symm
  rw [hj, ← newest_filter (p := fun _ => false), List.filter_false]
  · exact pool_writeAndClose
  · intro t _ hl
    obtain ⟨ht, hopen⟩ := slot_of_loaded hl
    exact absurd (hclosed t ht) hopen

/-- No slot is mapped when the map is saved, and slot 0 is opened after: it is open after the restore. -/
theorem pageMap_stays_open :
    (int67_47 oneHandle).r8h .eax = 0 ∧ (∀ s ≤ 3, oneHandle.ems.slotPool s = 0xFFFF) ∧
    Guarded emsStep MapsOnly (int67_47 oneHandle) (remap 0) (eventsFrom (int67_47 oneHandle) (remap 0)) ∧
    (eventsFrom (int67_47 oneHandle) (remap 0)).dx = oneHandle.dx ∧
    ∀ c, ¬ Restored oneHandle c (int67_48 (eventsFrom (int67_47 oneHandle) (remap 0))) := by
  have hslots : ∀ s ≤ 3, oneHandle.ems.slotPool s = 0xFFFF := by decide +kernel
  have hopen : (int67_48 (eventsFrom (int67_47 oneHandle) (remap 0))).ems.slotPool 0 ≠ 0xFFFF := by decide +kernel
  refine ⟨by decide +kernel, hslots, run_remap _ _, by decide +kernel, fun c hr => ?_⟩
  exact hopen (hr.unmapped 0 (by decide) (hslots 0 (by decide))).1

end Dosiz.Ems
