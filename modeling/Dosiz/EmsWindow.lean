/-
  Dosiz/EmsWindow.lean
  ====================
  **The page frame refines a true window.**

  On an expanded-memory board a slot of the frame is a window: what the guest writes there
  is in the logical page at once.  `Window` is that board — for every handle its logical
  pages, for every slot the page it opens on.  The guest learns what happened from the
  status in AH (`heard`), and `Tracks m w` relates the host's copies to the board that
  heard the same.  Every call and every write keeps the relation, as long as the guest
  maps no page twice, AH=51 drops no page that is mapped, and the handle counter does not
  come round to a handle in use.
-/
import Dosiz.Ems
import Dosiz.Transition

namespace Dosiz.Ems

open ByteMemory Machine CopyFlush Transition

/-! ### The board -/

abbrev Page := Fin EMS_PAGE_SIZE → UInt8

/-- Pages by handle and logical page number; `slots s` is what slot `s` opens on. -/
structure Window where
  size : Nat → Nat
  store : Nat → Nat → Page
  slots : Nat → Option (Nat × Nat)

def Window.empty : Window := ⟨fun _ => 0, fun _ _ _ => 0, fun _ => none⟩

inductive WindowEvent where
  | allocated (h n : Nat)
  | freed (h : Nat)
  | resized (h n : Nat)
  | mapped (s h lp : Nat)
  | unmapped (s : Nat)
  | wrote (s : Nat) (i : Fin EMS_PAGE_SIZE) (b : UInt8)

def Window.step (w : Window) : WindowEvent → Window
  | .allocated h n =>
    { w with size := Function.update w.size h n, store := Function.update w.store h fun _ _ => 0 }
  | .freed h =>
    { w with
      size := Function.update w.size h 0
      slots := fun s => (w.slots s).filter fun p => p.1 ≠ h }
  | .resized h n =>
    -- pages past the old size are new, pages past the new one are gone
    { size := Function.update w.size h n
      store := Function.update w.store h fun lp =>
        if lp < w.size h ∧ lp < n then w.store h lp else fun _ => 0
      slots := fun s => (w.slots s).filter fun p => p.1 ≠ h ∨ p.2 < n }
  | .mapped s h lp => { w with slots := Function.update w.slots s (some (h, lp)) }
  | .unmapped s => { w with slots := Function.update w.slots s none }
  | .wrote s i b =>
    match w.slots s with
    | none => w
    | some (h, lp) =>
      let page := Function.update (w.store h lp) i b
      { w with store := Function.update w.store h (Function.update (w.store h) lp page) }

/-! ### The relation -/

/-- Logical page `lp` of handle `h` is pool page `j`. -/
def Owns (m : Machine) (h lp j : Nat) : Prop :=
  ∃ H, m.ems.handles.lookup h = some H ∧ H.pages[lp]? = some j

/-- The host's copies are the pages of the board `w`. -/
structure Tracks (m : Machine) (w : Window) : Prop where
  used : ∀ h lp j, Owns m h lp j → j < EMS_TOTAL_PAGES ∧ m.ems.poolUsed j = true
  inj : ∀ h lp j h' lp', Owns m h lp j → Owns m h' lp' j → h = h' ∧ lp = lp'
  single : Single (mirror m)
  slots : ∀ s, w.slots s = ((mirror m).loaded s).map fun _ => (m.ems.slotH s, m.ems.slotP s)
  loaded : ∀ s j, (mirror m).loaded s = some j → Owns m (m.ems.slotH s) (m.ems.slotP s) j
  size : ∀ h H, m.ems.handles.lookup h = some H → w.size h = H.pages.length
  store : ∀ h lp j, Owns m h lp j → Holds (mirror m) j (w.store h lp)
  ids : m.ems.nextHandle < 65536

/-- Only guest memory and the expanded-memory globals matter. -/
theorem Tracks.same {m m' : Machine} {w : Window} (h : Tracks m w) (hmem : m'.mem = m.mem)
    (hems : m'.ems = m.ems) : Tracks m' w := by
  have hmir : mirror m' = mirror m := by
    simp only [mirror, hmem, hems]
  have hown : ∀ hd lp j, Owns m' hd lp j ↔ Owns m hd lp j := fun hd lp j => by
    simp only [Owns, hems]
  refine ⟨fun hd lp j ho => ?_, fun hd lp j hd' lp' ho ho' => ?_, hmir ▸ h.single, fun s => ?_,
    fun s j hl => ?_, fun hd H hH => h.size hd H (hems ▸ hH), fun hd lp j ho => ?_, hems ▸ h.ids⟩
  · rw [hems]
    exact h.used hd lp j ((hown _ _ _).mp ho)
  · exact h.inj hd lp j hd' lp' ((hown _ _ _).mp ho) ((hown _ _ _).mp ho')
  · rw [hmir, hems]
    exact h.slots s
  · rw [hmir] at hl
    rw [hown, hems]
    exact h.loaded s j hl
  · rw [hmir]
    exact h.store hd lp j ((hown _ _ _).mp ho)

theorem Tracks.setR8h {m : Machine} {w : Window} (h : Tracks m w) (r : Reg) (v : Nat) :
    Tracks (m.setR8h r v) w := h.same rfl rfl

theorem Tracks.setR16 {m : Machine} {w : Window} (h : Tracks m w) (r : Reg) (v : Nat) :
    Tracks (m.setR16 r v) w := h.same rfl rfl

/-- A mapped slot shows the page it opens on. -/
theorem Tracks.shows {m : Machine} {w : Window} (h : Tracks m w) {s hd lp : Nat}
    (hs : w.slots s = some (hd, lp)) : page m.mem (slotAddr s) = w.store hd lp := by
  rw [h.slots s] at hs
  obtain ⟨j, hl, hp⟩ := Option.map_eq_some_iff.mp hs
  obtain ⟨rfl, rfl⟩ : m.ems.slotH s = hd ∧ m.ems.slotP s = lp := by simpa using hp
  exact (h.store _ _ j (h.loaded s j hl)).frame_eq h.single hl

/-! ### Mapping -/

theorem emsLoadSlot_ems (m : Machine) (s j : Nat) :
    ∃ pool slotPool, (emsLoadSlot m s j).ems = { m.ems with pool := pool, slotPool := slotPool } := by
  unfold emsLoadSlot
  split
  · exact ⟨_, _, rfl⟩
  · exact ⟨_, _, rfl⟩

theorem owns_loadSlot (m : Machine) (s j a b : Nat) (h lp k : Nat) :
    Owns (emsSetSlot (emsLoadSlot m s j) s a b) h lp k ↔ Owns m h lp k := by
  obtain ⟨pool, slotPool, he⟩ := emsLoadSlot_ems m s j
  simp only [Owns, emsSetSlot, he]

theorem tracks_unload {m : Machine} {w : Window} (h : Tracks m w) {s : Nat} (hs : s ≤ 3) :
    Tracks (emsSetSlot (emsLoadSlot m s 0xFFFF) s 0xFFFF 0xFFFF) (w.step (.unmapped s)) := by
  obtain ⟨pool, slotPool, he⟩ := emsLoadSlot_ems m s 0xFFFF
  have hown := owns_loadSlot m s 0xFFFF 0xFFFF 0xFFFF
  have hmir : mirror (emsSetSlot (emsLoadSlot m s 0xFFFF) s 0xFFFF 0xFFFF) = unload (mirror m) s :=
    mirror_unload m hs
  refine ⟨fun hd lp j ho => ?_, fun hd lp j hd' lp' ho ho' => ?_, ?_, fun t => ?_, fun t j hl => ?_,
    fun hd H hH => ?_, fun hd lp j ho => ?_, ?_⟩
  · simp only [emsSetSlot, he]
    exact h.used hd lp j ((hown _ _ _).mp ho)
  · exact h.inj hd lp j hd' lp' ((hown _ _ _).mp ho) ((hown _ _ _).mp ho')
  · rw [hmir]
    exact unload_single h.single
  · rw [hmir]
    by_cases hts : t = s
    · simp [Window.step, unload, hts]
    · simp only [Window.step, unload, Function.update_of_ne hts, emsSetSlot, he]
      exact h.slots t
  · rw [hmir] at hl
    by_cases hts : t = s
    · simp [unload, hts] at hl
    · simp only [unload, Function.update_of_ne hts] at hl
      rw [hown]
      simp only [emsSetSlot, he, Function.update_of_ne hts]
      exact h.loaded t j hl
  · simp only [emsSetSlot, he] at hH
    exact h.size hd H hH
  · rw [hmir]
    exact unload_holds h.single (h.store hd lp j ((hown _ _ _).mp ho))
  · simp only [emsSetSlot, he]
    exact h.ids

theorem tracks_load {m : Machine} {w : Window} (h : Tracks m w) {s hd lp j : Nat} (hs : s ≤ 3)
    (ho : Owns m hd lp j) (hfree : ∀ t, t ≠ s → (mirror m).loaded t ≠ some j) :
    Tracks (emsSetSlot (emsLoadSlot m s j) s hd lp) (w.step (.mapped s hd lp)) := by
  obtain ⟨pool, slotPool, he⟩ := emsLoadSlot_ems m s j
  have hown := owns_loadSlot m s j hd lp
  have hmir : mirror (emsSetSlot (emsLoadSlot m s j) s hd lp) = load (mirror m) s j :=
    mirror_load m hs (h.used hd lp j ho).1
  refine ⟨fun hd' lp' k ho' => ?_, fun a lp k a' lp' ho ho' => ?_, ?_, fun t => ?_, fun t k hl => ?_,
    fun hd' H hH => ?_, fun hd' lp' k ho' => ?_, ?_⟩
  · simp only [emsSetSlot, he]
    exact h.used hd' lp' k ((hown _ _ _).mp ho')
  · exact h.inj a lp k a' lp' ((hown _ _ _).mp ho) ((hown _ _ _).mp ho')
  · rw [hmir]
    exact load_single h.single hfree
  · rw [hmir]
    by_cases hts : t = s
    · simp [Window.step, load, hts, emsSetSlot]
    · simp only [Window.step, load, Function.update_of_ne hts, emsSetSlot, he]
      exact h.slots t
  · rw [hmir] at hl
    by_cases hts : t = s
    · simp only [load, hts, Function.update_self, Option.some.injEq] at hl
      rw [hown, ← hl, hts]
      simpa only [emsSetSlot, Function.update_self] using ho
    · simp only [load, Function.update_of_ne hts] at hl
      rw [hown]
      simp only [emsSetSlot, he, Function.update_of_ne hts]
      exact h.loaded t k hl
  · simp only [emsSetSlot, he] at hH
    exact h.size hd' H hH
  · rw [hmir]
    exact load_holds h.single hfree (h.store hd' lp' k ((hown _ _ _).mp ho'))
  · simp only [emsSetSlot, he]
    exact h.ids

/-- The page is not open in a slot other than `s`. -/
def NoAlias (m : Machine) (s h lp : Nat) : Prop :=
  ∀ t ≤ 3, t ≠ s → m.ems.slotPool t ≠ 0xFFFF → ¬ (m.ems.slotH t = h ∧ m.ems.slotP t = lp)

/-- What a call that left status `st` has told the guest. -/
def heardIf (st : Nat) (e : WindowEvent) : List WindowEvent := if st = 0 then [e] else []

/-- What a map with status `st` has told the guest. -/
def mapHeard (s h lp st : Nat) : List WindowEvent :=
  heardIf st (if lp = 0xFFFF then .unmapped s else .mapped s h lp)

theorem emsMap_status (m : Machine) (s h lp : Nat) : (emsMap m s h lp).2 < 256 := by
  unfold emsMap
  split
  · simp
  · split
    · simp
    · split
      · simp
      · split <;> simp

theorem emsMap_tracks {m : Machine} {w : Window} (ht : Tracks m w) (s h lp : Nat)
    (halias : lp ≠ 0xFFFF → NoAlias m s h lp) :
    Tracks (emsMap m s h lp).1 ((mapHeard s h lp (emsMap m s h lp).2).foldl Window.step w) := by
  unfold emsMap
  by_cases hs : 3 < s
  · rw [if_pos hs]
    exact ht
  rw [if_neg hs]
  cases hH : m.ems.handles.lookup h with
  | none => exact ht
  | some H =>
    dsimp only
    by_cases hlp : lp = 0xFFFF
    · rw [if_pos hlp]
      simp only [mapHeard, heardIf, if_pos, hlp]
      exact tracks_unload ht (by omega)
    · rw [if_neg hlp]
      cases hpp : H.pages[lp]? with
      | none => exact ht
      | some j =>
        simp only [mapHeard, heardIf, if_neg hlp, if_pos]
        have ho : Owns m h lp j := ⟨H, hH, hpp⟩
        refine tracks_load ht (by omega) ho fun t hts hl => ?_
        have hcond : t ≤ 3 ∧ m.ems.slotPool t ≠ 0xFFFF := by
          by_contra hno
          simp only [mirror, if_neg hno] at hl
          cases hl
        exact halias hlp t hcond.1 hts hcond.2 (ht.inj _ _ _ _ _ (ht.loaded t j hl) ho)

/-- What AH=50 has told the guest: the maps of its table up to the one that failed. -/
def tableHeard (al dx arr : Nat) : Nat → Nat → Machine → List WindowEvent
  | 0, _, _ => []
  | n + 1, i, m =>
    let lp := readw m.mem (lin (arr + i * 4))
    let sec := readw m.mem (lin (arr + i * 4 + 2))
    if al = 1 ∧ (sec < EMS_FRAME_SEG ∨ EMS_FRAME_SEG + 0x1000 ≤ sec) then []
    else
      let slot := tableSlot al sec % 256
      let r := emsMap m slot dx lp
      mapHeard slot dx lp r.2 ++ if r.2 ≠ 0 then [] else tableHeard al dx arr n (i + 1) r.1

/-- No entry of the table opens a page that is open in another slot at that moment. -/
def TableNoAlias (al dx arr : Nat) : Nat → Nat → Machine → Prop
  | 0, _, _ => True
  | n + 1, i, m =>
    let lp := readw m.mem (lin (arr + i * 4))
    let sec := readw m.mem (lin (arr + i * 4 + 2))
    let slot := tableSlot al sec % 256
    (lp ≠ 0xFFFF → NoAlias m slot dx lp) ∧
      TableNoAlias al dx arr n (i + 1) (emsMap m slot dx lp).1

theorem emsMapTable_tracks (al dx arr : Nat) : ∀ (n i : Nat) {m : Machine} {w : Window},
    Tracks m w → TableNoAlias al dx arr n i m →
      Tracks (emsMapTable al dx arr n i m).1 ((tableHeard al dx arr n i m).foldl Window.step w)
  | 0, _, _, _, ht, _ => ht
  | n + 1, i, m, w, ht, halias => by
    have hstep := emsMap_tracks ht _ dx _ halias.1
    unfold emsMapTable tableHeard
    dsimp only
    split_ifs with hsec hst
    · exact ht
    · rw [List.append_nil]
      exact hstep
    · rw [List.foldl_append]
      exact emsMapTable_tracks al dx arr n (i + 1) hstep halias.2

/-! ### Allocating, freeing, resizing -/

/-- The pages `js` join the board as the logical pages of handle `h` from number `base` on;
    the others are as they were.  `H` is the handle's new entry. -/
theorem tracks_given {m : Machine} {w w' : Window} {e : Ems} {h b : Nat} {js : List Nat}
    {H : EmsHandle} (ht : Tracks m w) (hg : GivenPages m.ems e js)
    {hs : AList fun _ : Nat => EmsHandle} {next : Nat} (hnext : next < 65536) (hself : hs.lookup h = some H)
    (hother : ∀ a, a ≠ h → hs.lookup a = m.ems.handles.lookup a)
    (hold : ∀ lp, lp < b → ∀ j, H.pages[lp]? = some j → Owns m h lp j)
    (hnew : ∀ lp, b ≤ lp → H.pages[lp]? = js[lp - b]?)
    (hslot : ∀ s j, (mirror m).loaded s = some j → m.ems.slotH s = h →
      H.pages[m.ems.slotP s]? = some j)
    (hw : w'.slots = w.slots) (hwh : w'.size h = H.pages.length)
    (hws : ∀ a, a ≠ h → w'.size a = w.size a ∧ w'.store a = w.store a)
    (hlow : ∀ lp, lp < b → w'.store h lp = w.store h lp)
    (hzero : ∀ lp, b ≤ lp → w'.store h lp = fun _ => 0) :
    Tracks { m with ems := { e with handles := hs, nextHandle := next } } w' := by
  have hems := hg.same
  -- a page the new machine owns was owned before, or has just been given to `h`
  have hcase : ∀ a lp j, Owns { m with ems := { e with handles := hs, nextHandle := next } } a lp j →
      (Owns m a lp j ∧ (a = h → lp < b)) ∨ (a = h ∧ b ≤ lp ∧ js[lp - b]? = some j) := by
    rintro a lp j ⟨H', hH', hp⟩
    simp only at hH'
    by_cases ha : a = h
    · subst ha
      obtain rfl := Option.some.inj (hself.symm.trans hH')
      rcases Nat.lt_or_ge lp b with hlt | hge
      · exact Or.inl ⟨hold lp hlt j hp, fun _ => hlt⟩
      · exact Or.inr ⟨rfl, hge, (hnew lp hge).symm.trans hp⟩
    · rw [hother a ha] at hH'
      exact Or.inl ⟨⟨H', hH', hp⟩, fun h' => absurd h' ha⟩
  have hfresh : ∀ a lp j, Owns m a lp j → j ∉ js := fun a lp j ho hj => by
    have := (ht.used a lp j ho).2
    rw [hg.free j hj] at this
    cases this
  have hmemjs : ∀ i j, js[i]? = some j → j ∈ js := fun i j hi => List.mem_of_getElem? hi
  have hloaded : (mirror { m with ems := { e with handles := hs, nextHandle := next } }).loaded =
      (mirror m).loaded := by
    simp only [mirror]
    rw [hems]
  have hstore : w'.store = Function.update w.store h (w'.store h) := by
    funext a
    by_cases ha : a = h
    · rw [ha, Function.update_self]
    · rw [Function.update_of_ne ha, (hws a ha).2]
  refine ⟨fun a lp j ho => ?_, fun a lp j a' lp' ho ho' => ?_, ?_, fun s => ?_, fun s j hl => ?_,
    fun a H' hH' => ?_, fun a lp j ho => ?_, hnext⟩
  · simp only
    rw [hg.used]
    rcases hcase a lp j ho with ⟨ho, -⟩ | ⟨-, -, hj⟩
    · exact ⟨(ht.used a lp j ho).1, Or.inl (ht.used a lp j ho).2⟩
    · exact ⟨hg.range j (hmemjs _ _ hj), Or.inr (hmemjs _ _ hj)⟩
  · rcases hcase a lp j ho with ⟨ho, -⟩ | ⟨rfl, hlp, hj⟩ <;>
      rcases hcase a' lp' j ho' with ⟨ho', -⟩ | ⟨rfl, hlp', hj'⟩
    · exact ht.inj a lp j a' lp' ho ho'
    · exact absurd (hmemjs _ _ hj') (hfresh _ _ _ ho)
    · exact absurd (hmemjs _ _ hj) (hfresh _ _ _ ho')
    · refine ⟨rfl, ?_⟩
      have := (List.getElem?_inj (List.getElem?_eq_some_iff.mp hj).1 hg.nodup).mp (hj.trans hj'.symm)
      omega
  · rw [Single, hloaded]
    exact ht.single
  · rw [hw, hloaded]
    simp only
    rw [hems]
    exact ht.slots s
  · rw [hloaded] at hl
    have ho := ht.loaded s j hl
    simp only [Owns]
    rw [hems]
    by_cases hh : m.ems.slotH s = h
    · exact ⟨H, hh ▸ hself, hslot s j hl hh⟩
    · obtain ⟨H', hH', hp⟩ := ho
      exact ⟨H', (hother _ hh).trans hH', hp⟩
  · simp only at hH'
    by_cases ha : a = h
    · subst ha
      rw [hwh, Option.some.inj (hself.symm.trans hH')]
    · rw [hother a ha] at hH'
      rw [(hws a ha).1]
      exact ht.size a H' hH'
  · rcases hcase a lp j ho with ⟨ho, hlt⟩ | ⟨rfl, hge, hj⟩
    · -- an old page: its pool copy has not changed
      have hval : w'.store a lp = w.store a lp := by
        by_cases ha : a = h
        · subst ha
          exact hlow lp (hlt rfl)
        · rw [(hws a ha).2]
      rw [hval]
      exact (ht.store a lp j ho).congr hloaded (fun _ _ => rfl) (hg.rest j (hfresh a lp j ho))
    · -- a new page: loaded nowhere, zero in the pool
      have hj := hmemjs _ _ hj
      rw [hzero lp hge]
      refine Or.inr ⟨fun s hl => ?_, hg.zero j hj⟩
      rw [hloaded] at hl
      exact hfresh _ _ _ (ht.loaded s j hl) hj

/-- The pages `js` go back to the pool.  Handles lose pages only, and none that is mapped. -/
theorem tracks_released {m : Machine} {w w' : Window} {js : List Nat}
    {hs : AList fun _ : Nat => EmsHandle} (ht : Tracks m w)
    (hsub : ∀ a lp j, (∃ H, hs.lookup a = some H ∧ H.pages[lp]? = some j) →
      Owns m a lp j ∧ j ∉ js ∧ w'.store a lp = w.store a lp)
    (hloaded : ∀ s j, (mirror m).loaded s = some j →
      ∃ H, hs.lookup (m.ems.slotH s) = some H ∧ H.pages[m.ems.slotP s]? = some j)
    (hw : w'.slots = w.slots) (hsize : ∀ a H, hs.lookup a = some H → w'.size a = H.pages.length) :
    Tracks { m with ems := { emsReleasePages m.ems js with handles := hs } } w' where
  used a lp j ho := by
    obtain ⟨ho, hj, -⟩ := hsub a lp j ho
    exact ⟨(ht.used a lp j ho).1, (emsReleasePages_used m.ems js j).mpr ⟨(ht.used a lp j ho).2, hj⟩⟩
  inj a lp j a' lp' ho ho' := ht.inj a lp j a' lp' (hsub a lp j ho).1 (hsub a' lp' j ho').1
  single := ht.single
  slots s := hw ▸ ht.slots s
  loaded s j hl := hloaded s j hl
  size := hsize
  store a lp j ho := by
    obtain ⟨ho, -, hval⟩ := hsub a lp j ho
    rw [hval]
    exact ht.store a lp j ho
  ids := ht.ids

/-- The loop of AH=45 unmaps every slot of the handle. -/
theorem emsUnmapAll_tracks (h : Nat) : ∀ (ss : List Nat) {m : Machine} {w : Window},
    (∀ s ∈ ss, s ≤ 3) → Tracks m w → ∃ slots,
      Tracks (emsUnmapAll h ss m) { w with slots := slots } ∧
      (emsUnmapAll h ss m).ems.handles = m.ems.handles ∧
      ∀ s, slots s = if s ∈ ss then (w.slots s).filter fun p => p.1 ≠ h else w.slots s
  | [], m, w, _, ht => ⟨w.slots, ht, rfl, fun s => by simp⟩
  | s :: ss, m, w, hle, ht => by
    have hs : s ≤ 3 := hle s List.mem_cons_self
    have hslot := ht.slots s
    unfold emsUnmapAll
    by_cases hh : m.ems.slotH s = h
    · rw [if_pos hh]
      obtain ⟨pool, slotPool, he⟩ := emsLoadSlot_ems m s 0xFFFF
      obtain ⟨slots, ht', hhan, hall⟩ := emsUnmapAll_tracks h ss
        (fun t ht => hle t (List.mem_cons_of_mem _ ht)) (tracks_unload ht hs)
      refine ⟨slots, ht', hhan.trans ?_, fun t => ?_⟩
      · simp only [emsSetSlot, he]
      · rw [hall t]
        by_cases hts : t = s
        · subst hts
          have hnone : (w.slots t).filter (fun p => p.1 ≠ h) = none := by
            rw [hslot]
            cases (mirror m).loaded t with
            | none => rfl
            | some j => simp [Option.filter, hh]
          rw [if_pos List.mem_cons_self, hnone]
          simp [Window.step]
        · simp [Window.step, hts]
    · rw [if_neg hh]
      obtain ⟨slots, ht', hhan, hall⟩ := emsUnmapAll_tracks h ss
        (fun t ht => hle t (List.mem_cons_of_mem _ ht)) ht
      refine ⟨slots, ht', hhan, fun t => ?_⟩
      rw [hall t]
      by_cases hts : t = s
      · subst hts
        have hkeep : (w.slots t).filter (fun p => p.1 ≠ h) = w.slots t := by
          rw [hslot]
          cases (mirror m).loaded t with
          | none => rfl
          | some j => simp [Option.filter, hh]
        rw [if_pos List.mem_cons_self, hkeep, ite_self]
      · simp [hts]

/-! ### The calls -/

inductive EmsCall where
  | ah43 | ah44 | ah45 | ah50 | ah51 | ah5A
deriving DecidableEq, Repr

def EmsCall.serve : EmsCall → Machine → Machine
  | .ah43 => int67_43
  | .ah44 => int67_44
  | .ah45 => int67_45
  | .ah50 => int67_50
  | .ah51 => int67_51
  | .ah5A => int67_5A

/-- What the guest learns from a call: nothing, unless the call has done something. -/
def EmsCall.heard (m : Machine) (c : EmsCall) : List WindowEvent :=
  let m' := c.serve m
  match c with
  | .ah43 | .ah5A => heardIf (m'.r8h .eax) (.allocated m'.dx m.bx)
  | .ah44 => mapHeard (m.r8l .eax) m.dx m.bx (m'.r8h .eax)
  | .ah45 => heardIf (m'.r8h .eax) (.freed m.dx)
  | .ah50 =>
    if m.ems.handles.lookup m.dx = none ∨ 1 < m.r8l .eax then []
    else tableHeard (m.r8l .eax) m.dx (m.segPhys .ds + m.si) m.cx 0 m
  | .ah51 => heardIf (m'.r8h .eax) (.resized m.dx m.bx)

/-- What a successful `ems_alloc_handle` has done. -/
theorem emsAllocHandle_cases (e : Ems) (pages : Nat) (allowZero : Bool) :
    ((emsAllocHandle e pages allowZero).1 = e ∧ (emsAllocHandle e pages allowZero).2.1 % 256 ≠ 0) ∨
      ∃ e' js, GivenPages e e' js ∧ js.length = pages ∧ emsAllocHandle e pages allowZero =
        ({ e' with
            nextHandle := (e.nextHandle + 1) % 65536
            handles := e.handles.insert e.nextHandle ⟨js, false, fun _ => 0xFFFF, fun _ => 0xFFFF⟩ },
          0, e.nextHandle) := by
  unfold emsAllocHandle
  split_ifs with h₁ h₂ h₃
  · exact Or.inl ⟨rfl, by simp⟩
  · exact Or.inl ⟨rfl, by simp⟩
  · exact Or.inl ⟨rfl, by simp⟩
  · have hle : emsPagesAllocated e ≤ EMS_TOTAL_PAGES := by
      have := List.countP_le_length (p := e.poolUsed) (l := List.range EMS_TOTAL_PAGES)
      rwa [List.length_range] at this
    obtain ⟨hlen, hg⟩ := emsAllocPages_spec pages (e := e) (by omega)
    refine Or.inr ⟨_, _, hg, hlen, ?_⟩
    have hn : (emsAllocPages pages e).1.nextHandle = e.nextHandle := by rw [hg.same]
    have hh : (emsAllocPages pages e).1.handles = e.handles := by rw [hg.same]
    simp only [hn, hh]

theorem tracks_alloc {m : Machine} {w : Window} (ht : Tracks m w) (allowZero : Bool)
    (hfresh : m.ems.handles.lookup m.ems.nextHandle = none) :
    Tracks (int67_alloc m allowZero) ((heardIf ((int67_alloc m allowZero).r8h .eax)
      (.allocated (int67_alloc m allowZero).dx m.bx)).foldl Window.step w) := by
  unfold int67_alloc
  rcases emsAllocHandle_cases m.ems m.bx allowZero with ⟨he, hst⟩ | ⟨e', js, hg, hlen, heq⟩
  · have hst0 : (emsAllocHandle m.ems m.bx allowZero).2.1 ≠ 0 := fun h => hst (by rw [h])
    simp only [he, if_neg hst0, r8h_setR8h, heardIf, if_neg hst]
    exact ht.same rfl rfl
  · simp only [heq]
    have hah : ((({ m with ems := { e' with
        nextHandle := (m.ems.nextHandle + 1) % 65536
        handles := m.ems.handles.insert m.ems.nextHandle
          ⟨js, false, fun _ => 0xFFFF, fun _ => 0xFFFF⟩ } } : Machine).setR8h .eax 0).setR16 .edx
            m.ems.nextHandle).r8h .eax = 0 := by
      rw [r8h_setR16_of_ne _ _ (by decide), r8h_setR8h]
    simp only [if_pos, hah, heardIf, dx, r16_setR16, Nat.mod_eq_of_lt ht.ids, List.foldl_cons, List.foldl_nil]
    refine Tracks.setR16 (Tracks.setR8h ?_ _ _) _ _
    refine tracks_given (h := m.ems.nextHandle) (b := 0) ht hg
      (Nat.mod_lt _ (by decide)) (AList.lookup_insert _) (fun a ha => AList.lookup_insert_ne ha) (fun lp hlp => ?_)
      (fun lp _ => rfl) (fun s j hl hh => ?_) rfl ?_ (fun a ha => ?_) (fun lp hlp => ?_)
      (fun lp _ => ?_)
    · exact absurd hlp (Nat.not_lt_zero _)
    · -- no slot is mapped to a handle that did not exist
      obtain ⟨H, hH, -⟩ := ht.loaded s j hl
      rw [hh, hfresh] at hH
      cases hH
    · simp [Window.step, hlen]
    · simp [Window.step, Function.update_of_ne ha]
    · exact absurd hlp (Nat.not_lt_zero _)
    · simp [Window.step]

theorem tracks_free {m : Machine} {w : Window} (ht : Tracks m w) :
    Tracks (int67_45 m) ((heardIf ((int67_45 m).r8h .eax) (.freed m.dx)).foldl Window.step w) := by
  unfold int67_45
  cases hH : m.ems.handles.lookup m.dx with
  | none =>
    simp only [r8h_setR8h, heardIf]
    exact ht.same rfl rfl
  | some H =>
    dsimp only
    by_cases hs : H.mapSaved = true
    · rw [if_pos hs, r8h_setR8h]
      exact ht.same rfl rfl
    rw [if_neg hs, r8h_setR8h]
    simp only [heardIf, Nat.zero_mod, if_pos, List.foldl_cons, List.foldl_nil]
    obtain ⟨slots, ht', hhan, hall⟩ := emsUnmapAll_tracks m.dx [0, 1, 2, 3] (by decide) ht
    have hslots : ∀ s, slots s = (w.slots s).filter fun p => p.1 ≠ m.dx := by
      intro s
      rw [hall s]
      split_ifs with hmem
      · rfl
      · have hno : (mirror m).loaded s = none := if_neg fun hx => by
          simp only [List.mem_cons, List.not_mem_nil, or_false] at hmem
          omega
        rw [ht.slots s, hno]
        rfl
    have hown : ∀ lp j, H.pages[lp]? = some j →
        Owns (emsUnmapAll m.dx [0, 1, 2, 3] m) m.dx lp j := fun lp j hp =>
      ⟨H, hhan ▸ hH, hp⟩
    refine Tracks.setR8h ?_ _ _
    refine tracks_released ht' (fun a lp j ho => ?_) (fun s j hl => ?_) ?_ (fun a H' hH' => ?_)
    · obtain ⟨H', hH', hp⟩ := ho
      by_cases ha : a = m.dx
      · rw [ha, AList.lookup_erase] at hH'
        cases hH'
      · rw [AList.lookup_erase_ne ha] at hH'
        refine ⟨⟨H', hH', hp⟩, fun hj => ?_, rfl⟩
        obtain ⟨lp', hp'⟩ := List.mem_iff_getElem?.mp hj
        exact ha (ht'.inj a lp j _ _ ⟨H', hH', hp⟩ (hown lp' j hp')).1
    · -- the slots of the handle have just been unmapped
      obtain ⟨H', hH', hp⟩ := ht'.loaded s j hl
      have hne : (emsUnmapAll m.dx [0, 1, 2, 3] m).ems.slotH s ≠ m.dx := by
        intro hh
        have hs' := ht'.slots s
        rw [hl] at hs'
        simp only [Option.map_some, hslots s] at hs'
        have := (Option.filter_eq_some_iff.mp hs').2
        simp [hh] at this
      exact ⟨H', (AList.lookup_erase_ne hne).trans hH', hp⟩
    · exact funext fun s => (hslots s).symm
    · by_cases ha : a = m.dx
      · rw [ha, AList.lookup_erase] at hH'
        cases hH'
      · rw [AList.lookup_erase_ne ha] at hH'
        simp only [Window.step, Function.update_of_ne ha]
        exact ht'.size a H' hH'

theorem pages_length_le {m : Machine} {w : Window} (ht : Tracks m w) {h : Nat} {H : EmsHandle}
    (hH : m.ems.handles.lookup h = some H) : H.pages.length ≤ EMS_TOTAL_PAGES := by
  have hnd : H.pages.Nodup := by
    refine List.nodup_iff_injective_get.mpr fun a b hab => Fin.ext ?_
    have ho : ∀ c : Fin H.pages.length, Owns m h c (H.pages.get c) := fun c =>
      ⟨H, hH, List.getElem?_eq_getElem c.isLt⟩
    exact (ht.inj h a _ h b (ho a) (hab ▸ ho b)).2
  have hsub : H.pages ⊆ List.range EMS_TOTAL_PAGES := by
    intro j hj
    obtain ⟨lp, hp⟩ := List.mem_iff_getElem?.mp hj
    exact List.mem_range.mpr (ht.used h lp j ⟨H, hH, hp⟩).1
  have hle := (List.subperm_of_subset hnd hsub).length_le
  rwa [List.length_range] at hle

/-- AH=51 would not drop a page that is mapped. -/
def NoDrop (m : Machine) : Prop :=
  ∀ s ≤ 3, m.ems.slotPool s ≠ 0xFFFF → m.ems.slotH s = m.dx → m.ems.slotP s < m.bx

/-- Then resizing closes no slot of the board. -/
theorem resized_slots {m : Machine} {w : Window} (ht : Tracks m w) (hd : NoDrop m) :
    (w.step (.resized m.dx m.bx)).slots = w.slots := by
  funext s
  simp only [Window.step]
  rw [ht.slots s]
  by_cases hs : s ≤ 3 ∧ m.ems.slotPool s ≠ 0xFFFF
  · rw [mirror_loaded hs.1 hs.2]
    refine Option.filter_eq_some_iff.mpr ⟨rfl, ?_⟩
    by_cases hh : m.ems.slotH s = m.dx
    · simp [hd s hs.1 hs.2 hh]
    · simp [hh]
  · simp only [mirror, if_neg hs]
    rfl

theorem resized_store {m : Machine} {w : Window} (ht : Tracks m w) {H : EmsHandle}
    (hH : m.ems.handles.lookup m.dx = some H) {lp : Nat} (h₁ : lp < H.pages.length)
    (h₂ : lp < m.bx) : (w.step (.resized m.dx m.bx)).store m.dx lp = w.store m.dx lp := by
  simp only [Window.step, Function.update_self, ht.size _ H hH]
  rw [if_pos ⟨h₁, h₂⟩]

theorem tracks_realloc {m : Machine} {w : Window} (ht : Tracks m w) (hd : NoDrop m) :
    Tracks (int67_51 m)
      ((heardIf ((int67_51 m).r8h .eax) (.resized m.dx m.bx)).foldl Window.step w) := by
  have hslots := resized_slots ht hd
  unfold int67_51
  cases hH : m.ems.handles.lookup m.dx with
  | none =>
    simp only [r8h_setR8h, heardIf]
    exact ht.same rfl rfl
  | some H =>
    have hlen := pages_length_le ht hH
    have hheld : H.pages.length % 65536 = H.pages.length := by
      simp only [EMS_TOTAL_PAGES] at hlen
      omega
    simp only [hheld]
    have hother : ∀ a, a ≠ m.dx → (w.step (.resized m.dx m.bx)).size a = w.size a ∧
        (w.step (.resized m.dx m.bx)).store a = w.store a := fun a ha => by
      simp [Window.step, Function.update_of_ne ha]
    by_cases hroom : H.pages.length < m.bx ∧
        EMS_TOTAL_PAGES - emsPagesAllocated m.ems < m.bx - H.pages.length
    · rw [if_pos hroom, r8h_setR8h]
      exact ht.same rfl rfl
    rw [if_neg hroom, r8h_setR8h]
    simp only [heardIf, Nat.zero_mod, if_pos, List.foldl_cons, List.foldl_nil]
    refine Tracks.setR8h (Tracks.setR16 ?_ _ _) _ _
    by_cases hgrow : H.pages.length < m.bx
    · rw [if_pos hgrow]
      have hle : emsPagesAllocated m.ems ≤ EMS_TOTAL_PAGES := by
        have := List.countP_le_length (p := m.ems.poolUsed) (l := List.range EMS_TOTAL_PAGES)
        rwa [List.length_range] at this
      obtain ⟨hjs, hg⟩ := emsAllocPages_spec (m.bx - H.pages.length) (e := m.ems) (by omega)
      have hhan : (emsAllocPages (m.bx - H.pages.length) m.ems).1.handles = m.ems.handles := by
        rw [hg.same]
      have hnext : (emsAllocPages (m.bx - H.pages.length) m.ems).1.nextHandle =
          m.ems.nextHandle := by
        rw [hg.same]
      refine tracks_given (h := m.dx) (b := H.pages.length) ht hg (hnext ▸ ht.ids)
        (AList.lookup_insert _) (fun a ha => ?_) (fun lp hlp j hj => ?_) (fun lp hlp => ?_)
        (fun s j hl hh => ?_) hslots ?_ hother (fun lp hlp => ?_) (fun lp hlp => ?_)
      · rw [AList.lookup_insert_ne ha, hhan]
      · simp only [List.getElem?_append_left hlp] at hj
        exact ⟨H, hH, hj⟩
      · simp only [List.getElem?_append_right hlp]
      · obtain ⟨H', hH', hp⟩ := ht.loaded s j hl
        rw [hh, hH] at hH'
        obtain rfl := Option.some.inj hH'
        have hlt := (List.getElem?_eq_some_iff.mp hp).1
        simp only [List.getElem?_append_left hlt, hp]
      · simp only [Window.step, Function.update_self, List.length_append, hjs]
        omega
      · exact resized_store ht hH hlp (by omega)
      · simp only [Window.step, Function.update_self, ht.size _ H hH]
        rw [if_neg (by omega)]
    · rw [if_neg hgrow]
      -- shrunk or unchanged: the pages from `want` on go back
      have hkeep : ∀ lp j, H.pages[lp]? = some j → lp < m.bx →
          Owns m m.dx lp j ∧ j ∉ H.pages.drop m.bx ∧
            (w.step (.resized m.dx m.bx)).store m.dx lp = w.store m.dx lp := by
        intro lp j hp hlt
        refine ⟨⟨H, hH, hp⟩, fun hj => ?_, resized_store ht hH
          (List.getElem?_eq_some_iff.mp hp).1 hlt⟩
        obtain ⟨i, hi⟩ := List.mem_iff_getElem?.mp hj
        rw [List.getElem?_drop] at hi
        have := (ht.inj _ _ _ _ _ ⟨H, hH, hp⟩ (⟨H, hH, hi⟩ : Owns m m.dx _ j)).2
        omega
      have hshrunk : ∀ hs : AList fun _ : Nat => EmsHandle,
          (∃ H', hs.lookup m.dx = some H' ∧ H'.pages = H.pages.take m.bx) →
          (∀ a, a ≠ m.dx → hs.lookup a = m.ems.handles.lookup a) →
          Tracks { m with ems := { emsReleasePages m.ems (H.pages.drop m.bx) with handles := hs } }
            (w.step (.resized m.dx m.bx)) := by
        rintro hs ⟨H', hself, hpages⟩ hrest
        refine tracks_released ht (fun a lp j ho => ?_) (fun s j hl => ?_) hslots (fun a K hK => ?_)
        · obtain ⟨K, hK, hp⟩ := ho
          by_cases ha : a = m.dx
          · subst ha
            obtain rfl := Option.some.inj (hself.symm.trans hK)
            rw [hpages, List.getElem?_take] at hp
            split_ifs at hp with hlt
            exact hkeep lp j hp hlt
          · rw [hrest a ha] at hK
            refine ⟨⟨K, hK, hp⟩, fun hj => ?_, by rw [(hother a ha).2]⟩
            obtain ⟨i, hi⟩ := List.mem_iff_getElem?.mp (List.mem_of_mem_drop hj)
            exact ha (ht.inj a lp j _ i ⟨K, hK, hp⟩ ⟨H, hH, hi⟩).1
        · obtain ⟨K, hK, hp⟩ := ht.loaded s j hl
          by_cases hh : m.ems.slotH s = m.dx
          · have hcond : s ≤ 3 ∧ m.ems.slotPool s ≠ 0xFFFF := by
              by_contra hno
              simp only [mirror, if_neg hno] at hl
              cases hl
            rw [hh, hH] at hK
            obtain rfl := Option.some.inj hK
            refine ⟨H', hh ▸ hself, ?_⟩
            rw [hpages, List.getElem?_take, if_pos (hd s hcond.1 hcond.2 hh), hp]
          · exact ⟨K, (hrest _ hh).trans hK, hp⟩
        · by_cases ha : a = m.dx
          · subst ha
            rw [← Option.some.inj (hself.symm.trans hK), hpages, List.length_take]
            simp only [Window.step, Function.update_self]
            omega
          · rw [(hother a ha).1]
            exact ht.size a K ((hrest a ha).symm.trans hK)
      by_cases hlt : m.bx < H.pages.length
      · rw [if_pos hlt]
        exact hshrunk _ ⟨_, AList.lookup_insert _, rfl⟩ fun a ha => AList.lookup_insert_ne ha
      · rw [if_neg hlt]
        have hnone := hshrunk m.ems.handles ⟨H, hH, (List.take_of_length_le (by omega)).symm⟩
          fun _ _ => rfl
        rw [List.drop_of_length_le (by omega)] at hnone
        exact hnone

/-! ### Writes of the guest -/

/-- What a write at `a` does to the board: nothing outside the page frame. -/
def writeHeard (a : Nat) (b : UInt8) : List WindowEvent :=
  if EMS_FRAME_BASE ≤ a ∧ a < EMS_FRAME_BASE + 4 * EMS_PAGE_SIZE then
    [.wrote ((a - EMS_FRAME_BASE) / EMS_PAGE_SIZE)
      ⟨(a - EMS_FRAME_BASE) % EMS_PAGE_SIZE, Nat.mod_lt _ (by decide)⟩ b]
  else []

/-- A byte written in slot `s`. -/
theorem mirror_write (m : Machine) (s : Nat) (i : Fin EMS_PAGE_SIZE) (b : UInt8) :
    mirror { m with mem := writeb m.mem (slotAddr s + i) b.toNat } =
      write (mirror m) s (Function.update ((mirror m).frame s) i b) := by
  have hi := i.isLt
  simp only [mirror, write, Mirror.mk.injEq, true_and, and_true]
  funext t k
  have hk := k.isLt
  by_cases hts : t = s
  · subst hts
    rw [Function.update_self]
    by_cases hki : k = i
    · subst hki
      simp [page, writeb]
    · rw [Function.update_of_ne hki]
      exact if_neg fun h => hki (Fin.ext (Nat.add_left_cancel h))
  · have hap := apart_of_ne hts EMS_FRAME_BASE
    rw [Function.update_of_ne hts]
    refine if_neg fun h => ?_
    simp only [slotAddr] at h
    omega

theorem slot_of_loaded {m : Machine} {s j : Nat} (h : (mirror m).loaded s = some j) :
    s ≤ 3 ∧ m.ems.slotPool s ≠ 0xFFFF := by
  by_contra hno
  simp only [mirror, if_neg hno] at h
  cases h

/-- A change of guest memory that changes the right pages keeps the relation. -/
theorem tracks_mem {m : Machine} {w w' : Window} (ht : Tracks m w) (mem : Mem)
    (hw : w'.slots = w.slots) (hsize : w'.size = w.size)
    (hstore : ∀ h lp j, Owns m h lp j → Holds (mirror { m with mem := mem }) j (w'.store h lp)) :
    Tracks { m with mem := mem } w' :=
  ⟨ht.used, ht.inj, ht.single, hw ▸ ht.slots, ht.loaded, hsize ▸ ht.size, hstore, ht.ids⟩

theorem tracks_write_off {m : Machine} {w : Window} (ht : Tracks m w) {a : Nat} (v : Nat)
    (ha : ¬ (EMS_FRAME_BASE ≤ a ∧ a < EMS_FRAME_BASE + 4 * EMS_PAGE_SIZE)) :
    Tracks { m with mem := writeb m.mem a v } w := by
  refine tracks_mem ht _ rfl rfl fun h lp j ho => Holds.congr (m := mirror m) rfl (fun s hl => ?_)
    rfl (ht.store h lp j ho)
  have hle := Nat.mul_le_mul_right EMS_PAGE_SIZE (slot_of_loaded hl).1
  funext k
  have hk := k.isLt
  refine if_neg fun h => ha ?_
  simp only [slotAddr] at h
  omega

theorem tracks_write_in {m : Machine} {w : Window} (ht : Tracks m w) (s : Nat)
    (i : Fin EMS_PAGE_SIZE) (b : UInt8) :
    Tracks { m with mem := writeb m.mem (slotAddr s + i) b.toNat } (w.step (.wrote s i b)) := by
  have hmir := mirror_write m s i b
  have hslot := ht.slots s
  cases hl : (mirror m).loaded s with
  | none =>
    rw [hl] at hslot
    have hw : w.step (.wrote s i b) = w := by
      simp only [Window.step, hslot, Option.map_none]
    rw [hw]
    refine tracks_mem ht _ rfl rfl fun h lp j ho => ?_
    rw [hmir]
    exact write_holds_of_ne (by simp [hl]) (ht.store h lp j ho)
  | some j₀ =>
    rw [hl, Option.map_some] at hslot
    have ho₀ := ht.loaded s j₀ hl
    have hshow : (mirror m).frame s = w.store (m.ems.slotH s) (m.ems.slotP s) := ht.shows hslot
    refine tracks_mem ht _ (by simp only [Window.step, hslot]) (by simp only [Window.step, hslot])
      fun h lp j ho => ?_
    rw [hmir]
    by_cases hj : j = j₀
    · -- the page the slot opens on
      subst hj
      obtain ⟨rfl, rfl⟩ := ht.inj _ _ _ _ _ ho ho₀
      simp only [Window.step, hslot, Function.update_self]
      rw [hshow]
      exact write_holds_self hl
    · have hne : ¬ (h = m.ems.slotH s ∧ lp = m.ems.slotP s) := by
        rintro ⟨rfl, rfl⟩
        obtain ⟨H, hH, hp⟩ := ho
        obtain ⟨H', hH', hp'⟩ := ho₀
        obtain rfl := Option.some.inj (hH.symm.trans hH')
        exact hj (Option.some.inj (hp.symm.trans hp'))
      have hval : (w.step (.wrote s i b)).store h lp = w.store h lp := by
        simp only [Window.step, hslot]
        by_cases hh : h = m.ems.slotH s
        · subst hh
          rw [Function.update_self, Function.update_of_ne fun h => hne ⟨rfl, h⟩]
        · rw [Function.update_of_ne hh]
      rw [hval]
      refine write_holds_of_ne ?_ (ht.store h lp j ho)
      rw [hl, ne_eq, Option.some.injEq]
      exact Ne.symm hj

theorem tracks_write {m : Machine} {w : Window} (ht : Tracks m w) (a : Nat) (b : UInt8) :
    Tracks { m with mem := writeb m.mem a b.toNat } ((writeHeard a b).foldl Window.step w) := by
  unfold writeHeard
  by_cases ha : EMS_FRAME_BASE ≤ a ∧ a < EMS_FRAME_BASE + 4 * EMS_PAGE_SIZE
  · have hin := tracks_write_in ht ((a - EMS_FRAME_BASE) / EMS_PAGE_SIZE)
      ⟨(a - EMS_FRAME_BASE) % EMS_PAGE_SIZE, Nat.mod_lt _ (by decide)⟩ b
    have hsum : slotAddr ((a - EMS_FRAME_BASE) / EMS_PAGE_SIZE) +
        (a - EMS_FRAME_BASE) % EMS_PAGE_SIZE = a := by
      have := Nat.div_add_mod' (a - EMS_FRAME_BASE) EMS_PAGE_SIZE
      simp only [slotAddr]
      omega
    rw [if_pos ha]
    simp only [hsum] at hin
    exact hin
  · rw [if_neg ha]
    exact tracks_write_off ht _ ha

/-! ### Runs -/

inductive EmsEvent where
  | regs (cpu : Cpu)
  | write (a : Nat) (b : UInt8)
  | call (c : EmsCall)

def EmsEvent.next (m : Machine) : EmsEvent → Machine
  | .regs cpu => { m with cpu := cpu }
  | .write a b => { m with mem := writeb m.mem a b.toNat }
  | .call c => c.serve m

def emsStep (m : Machine) (e : EmsEvent) (m' : Machine) : Prop := e.next m = m'

/-- What the guest has done to the board, as far as it can tell. -/
def EmsEvent.heard (m : Machine) : EmsEvent → List WindowEvent
  | .regs _ => []
  | .write a b => writeHeard a b
  | .call c => c.heard m

/-- The board after a run from `m`. -/
def boardAfter : Machine → List EmsEvent → Window → Window
  | _, [], w => w
  | m, e :: es, w => boardAfter (e.next m) es ((e.heard m).foldl Window.step w)

/-- The guest maps no page that is open in another slot. -/
def EmsCall.Unaliased (m : Machine) : EmsCall → Prop
  | .ah44 => m.bx ≠ 0xFFFF → NoAlias m (m.r8l .eax) m.dx m.bx
  | .ah50 => TableNoAlias (m.r8l .eax) m.dx (m.segPhys .ds + m.si) m.cx 0 m
  | _ => True

/-- AH=51 drops no mapped page, and the handle counter is not at a handle in use. -/
def EmsCall.Clean (m : Machine) : EmsCall → Prop
  | .ah43 | .ah5A => m.ems.handles.lookup m.ems.nextHandle = none
  | .ah51 => NoDrop m
  | _ => True

def Legal (m : Machine) (e : EmsEvent) : Prop := ∀ c, e = .call c → c.Unaliased m ∧ c.Clean m

theorem emsCall_tracks {m : Machine} {w : Window} (ht : Tracks m w) {c : EmsCall}
    (hu : c.Unaliased m) (hc : c.Clean m) :
    Tracks (c.serve m) ((c.heard m).foldl Window.step w) := by
  cases c with
  | ah43 => exact tracks_alloc ht false hc
  | ah5A => exact tracks_alloc ht true hc
  | ah45 => exact tracks_free ht
  | ah51 => exact tracks_realloc ht hc
  | ah44 =>
    have h := emsMap_tracks ht (m.r8l .eax) m.dx m.bx hu
    have hst := emsMap_status m (m.r8l .eax) m.dx m.bx
    simp only [EmsCall.serve, EmsCall.heard, int67_44, r8h_setR8h, Nat.mod_eq_of_lt hst]
    exact h.setR8h _ _
  | ah50 =>
    simp only [EmsCall.serve, EmsCall.heard, int67_50]
    cases hH : m.ems.handles.lookup m.dx with
    | none =>
      simp only [true_or, if_true]
      exact ht.setR8h _ _
    | some H =>
      by_cases hal : 1 < m.r8l .eax
      · simp only [hal, or_true, if_true]
        exact ht.setR8h _ _
      · simp only [hal, reduceCtorEq, or_self, if_false]
        exact (emsMapTable_tracks _ _ _ _ _ ht hu).setR8h _ _

/-- Nothing is allocated and nothing is mapped: the state `ems_reset` leaves. -/
theorem tracks_reset {m : Machine} (hh : m.ems.handles = ∅) (hn : m.ems.nextHandle < 65536)
    (hs : ∀ s, m.ems.slotPool s = 0xFFFF) : Tracks m Window.empty := by
  have hno : ∀ h lp j, ¬ Owns m h lp j := by
    rintro h lp j ⟨H, hH, -⟩
    rw [hh, AList.lookup_empty] at hH
    cases hH
  have hl : ∀ s, (mirror m).loaded s = none := fun s => if_neg fun hx => hx.2 (hs s)
  refine ⟨fun h lp j ho => absurd ho (hno h lp j), fun h lp j _ _ ho => absurd ho (hno h lp j),
    fun s t j hj => ?_, fun s => ?_, fun s j hj => ?_, fun h H hH => ?_,
    fun h lp j ho => absurd ho (hno h lp j), hn⟩
  · rw [hl s] at hj
    cases hj
  · rw [hl s]
    rfl
  · rw [hl s] at hj
    cases hj
  · rw [hh, AList.lookup_empty] at hH
    cases hH

theorem run_tracks {es : List EmsEvent} : ∀ {m₀ m : Machine} {w : Window},
    Guarded emsStep Legal m₀ es m → Tracks m₀ w → Tracks m (boardAfter m₀ es w) := by
  induction es with
  | nil =>
    rintro m₀ m w ⟨⟩ ht
    exact ht
  | cons e es ih =>
    intro m₀ m w hrun ht
    cases hrun with
    | cons hg hs rest =>
      obtain rfl := hs
      refine ih rest ?_
      cases e with
      | regs cpu => exact ht.same rfl rfl
      | write a b => exact tracks_write ht a b
      | call c => exact emsCall_tracks ht (hg c rfl).1 (hg c rfl).2

/-- **Copy-flush mapping refines a true window**, in every run from boot in which the guest maps
    no page twice, AH=51 drops no mapped page and the handle counter meets no handle in use: a
    mapped slot shows what the board says its handle's logical page holds — the bytes last
    written through a window on it, zeros where there were none — and a page that is not
    mapped holds what the board says, whatever was written through other windows. -/
theorem ems_refines_window {es : List EmsEvent} {m : Machine}
    (hrun : Guarded emsStep Legal bootMachine es m) :
    (∀ s h lp, (boardAfter bootMachine es Window.empty).slots s = some (h, lp) →
      page m.mem (slotAddr s) = (boardAfter bootMachine es Window.empty).store h lp) ∧
    (∀ s ≤ 3, m.ems.slotPool s ≠ 0xFFFF →
      (boardAfter bootMachine es Window.empty).slots s = some (m.ems.slotH s, m.ems.slotP s)) ∧
    ∀ h lp j, Owns m h lp j →
      Holds (mirror m) j ((boardAfter bootMachine es Window.empty).store h lp) := by
  have ht := run_tracks hrun (tracks_reset rfl (by decide) fun _ => rfl)
  refine ⟨fun s h lp hs => ht.shows hs, fun s hs hp => ?_, ht.store⟩
  rw [ht.slots s, mirror_loaded hs hp]
  rfl

/-! ### A stale slot -/

/-- BX and DX, every other register 0. -/
def emsCpu (bx dx : BitVec 32) : Cpu :=
  { zeroCpu with
    regs := fun
      | .ebx => bx
      | .edx => dx
      | _ => 0 }

/-- A handle of one page, mapped into slot 0 and written to. -/
def mappedEvents : List EmsEvent :=
  [.regs (emsCpu 1 0), .call .ah43, .regs (emsCpu 0 1), .call .ah44, .write 0xE0000 0xAA]

/-- Then it is shrunk to no pages, and a second handle gets the page and slot 0. -/
def staleEvents : List EmsEvent :=
  mappedEvents ++ [.regs (emsCpu 0 1), .call .ah51, .regs (emsCpu 1 0), .call .ah43,
    .regs (emsCpu 0 2), .call .ah44]

/-- The guest's own part of `Legal`. -/
def UnaliasedOnly (m : Machine) (e : EmsEvent) : Prop := ∀ c, e = .call c → c.Unaliased m

/-- The machine after a list of events. -/
def machineAfter (es : List EmsEvent) : Machine := es.foldl EmsEvent.next bootMachine

theorem run_mapped : Guarded emsStep Legal bootMachine mappedEvents (machineAfter mappedEvents) := by
  refine .cons (by rintro _ ⟨⟩) rfl (.cons ?_ rfl (.cons (by rintro _ ⟨⟩) rfl (.cons ?_ rfl
    (.cons (by rintro _ ⟨⟩) rfl (.nil _)))))
  · rintro _ ⟨⟩
    refine ⟨trivial, ?_⟩
    unfold EmsCall.Clean
    decide +kernel
  · rintro _ ⟨⟩
    refine ⟨fun _ => ?_, trivial⟩
    unfold NoAlias
    decide +kernel

/-- The run that maps handle 1 and writes to it. -/
theorem ems_refines_window_mapped :
    (∀ s h lp, (boardAfter bootMachine mappedEvents Window.empty).slots s = some (h, lp) →
      page (machineAfter mappedEvents).mem (slotAddr s) =
        (boardAfter bootMachine mappedEvents Window.empty).store h lp) ∧
    (∀ s ≤ 3, (machineAfter mappedEvents).ems.slotPool s ≠ 0xFFFF →
      (boardAfter bootMachine mappedEvents Window.empty).slots s =
        some ((machineAfter mappedEvents).ems.slotH s, (machineAfter mappedEvents).ems.slotP s)) ∧
    ∀ h lp j, Owns (machineAfter mappedEvents) h lp j →
      Holds (mirror (machineAfter mappedEvents)) j
        ((boardAfter bootMachine mappedEvents Window.empty).store h lp) :=
  ems_refines_window run_mapped

theorem run_stale :
    Guarded emsStep UnaliasedOnly bootMachine staleEvents (machineAfter staleEvents) := by
  refine .cons (by rintro _ ⟨⟩) rfl (.cons ?_ rfl (.cons (by rintro _ ⟨⟩) rfl (.cons ?_ rfl
    (.cons (by rintro _ ⟨⟩) rfl (.cons (by rintro _ ⟨⟩) rfl (.cons ?_ rfl (.cons (by rintro _ ⟨⟩) rfl
    (.cons ?_ rfl (.cons (by rintro _ ⟨⟩) rfl (.cons ?_ rfl (.nil _)))))))))))
  · rintro _ ⟨⟩
    trivial
  · rintro _ ⟨⟩ -
    unfold NoAlias
    decide +kernel
  · rintro _ ⟨⟩
    trivial
  · rintro _ ⟨⟩
    trivial
  · rintro _ ⟨⟩ -
    unfold NoAlias
    decide +kernel

/-- Slot 0 is mapped to the second handle's page, which nobody has written: it shows the byte
    written through the first handle. -/
theorem ems_shrink_leaves_stale :
    Guarded emsStep UnaliasedOnly bootMachine staleEvents (machineAfter staleEvents) ∧
    (boardAfter bootMachine staleEvents Window.empty).slots 0 = some (2, 0) ∧
    (machineAfter staleEvents).ems.slotH 0 = 2 ∧ (machineAfter staleEvents).ems.slotP 0 = 0 ∧
    (boardAfter bootMachine staleEvents Window.empty).store 2 0 ⟨0, by decide⟩ = 0 ∧
    page (machineAfter staleEvents).mem (slotAddr 0) ⟨0, by decide⟩ = 0xAA := by
  refine ⟨run_stale, ?_, ?_, ?_, ?_, ?_⟩ <;> decide +kernel

end Dosiz.Ems
