/-
  Dosiz/Ems.lean
  ==============
  **Expanded memory** (INT 67h of `bridge.cc`).

  Logical pages of 16 KB live in a pool outside guest memory; the guest sees them through
  the four slots of the page frame at 0xE0000.  A slot is a copy of its page:
  `ems_load_slot` writes it back before it copies another page in.  The functions of the
  source come first; then `mirror` reads the pool and the frame as a copy-flush mirror,
  and each function is shown to be the operation of the library it stands for.
-/
import Mathlib.Tactic.SplitIfs
import Dosiz.CopyFlush
import Dosiz.Machine

namespace Dosiz.Ems

open ByteMemory Machine CopyFlush

def EMS_FRAME_SEG : Nat := 0xE000
def EMS_FRAME_BASE : Nat := 0xE0000
def EMS_PAGE_SIZE : Nat := 0x4000
def EMS_TOTAL_PAGES : Nat := 512

/-! ### The functions of the source -/

/-- `ems_pages_allocated` -/
def emsPagesAllocated (e : Ems) : Nat := (List.range EMS_TOTAL_PAGES).countP e.poolUsed

/-- `ems_alloc_pool_page`: the first free page, zeroed, or 0xFFFF. -/
def emsAllocPoolPage (e : Ems) : Ems × Nat :=
  match (List.range EMS_TOTAL_PAGES).find? fun j => !e.poolUsed j with
  | none => (e, 0xFFFF)
  | some j =>
    ({ e with
        poolUsed := Function.update e.poolUsed j true
        pool := fill e.pool (j * EMS_PAGE_SIZE) EMS_PAGE_SIZE 0 }, j)

/-- The loop that gives a handle `n` more pages. -/
def emsAllocPages : Nat → Ems → Ems × List Nat
  | 0, e => (e, [])
  | n + 1, e =>
    let p := emsAllocPoolPage e
    let r := emsAllocPages n p.1
    (r.1, p.2 :: r.2)

/-- `ems_load_slot` -/
def emsLoadSlot (m : Machine) (slot poolPage : Nat) : Machine :=
  if 3 < slot then m
  else
    let poolPage := if poolPage ≠ 0xFFFF ∧ EMS_TOTAL_PAGES ≤ poolPage then 0xFFFF else poolPage
    let fa := EMS_FRAME_BASE + slot * EMS_PAGE_SIZE
    let cur := m.ems.slotPool slot
    let pool :=
      if cur ≠ 0xFFFF then blit m.ems.pool (cur * EMS_PAGE_SIZE) EMS_PAGE_SIZE (bytesAt m.mem fa)
      else m.ems.pool
    let mem :=
      if poolPage ≠ 0xFFFF then blit m.mem fa EMS_PAGE_SIZE (bytesAt pool (poolPage * EMS_PAGE_SIZE))
      else m.mem
    { m with
      mem := mem
      ems := { m.ems with pool := pool, slotPool := Function.update m.ems.slotPool slot poolPage } }

/-- `s_ems_slot_h[slot] = h; s_ems_slot_p[slot] = lp;` -/
def emsSetSlot (m : Machine) (slot h lp : Nat) : Machine :=
  { m with ems := { m.ems with
      slotH := Function.update m.ems.slotH slot h
      slotP := Function.update m.ems.slotP slot lp } }

/-- `ems_map`: the machine and the EMS status. -/
def emsMap (m : Machine) (slot handle lp : Nat) : Machine × Nat :=
  if 3 < slot then (m, 0x8B)
  else
    match m.ems.handles.lookup handle with
    | none => (m, 0x83)
    | some H =>
      if lp = 0xFFFF then (emsSetSlot (emsLoadSlot m slot 0xFFFF) slot 0xFFFF 0xFFFF, 0)
      else
        match H.pages[lp]? with
        | none => (m, 0x8A)
        | some pp => (emsSetSlot (emsLoadSlot m slot pp) slot handle lp, 0)

/-- `ems_alloc_handle`: the globals, the status and the new handle. -/
def emsAllocHandle (e : Ems) (pages : Nat) (allowZero : Bool) : Ems × Nat × Nat :=
  if pages = 0 ∧ allowZero = false then (e, 0x89, 0)
  else if EMS_TOTAL_PAGES - emsPagesAllocated e < pages then (e, 0x88, 0)
  else if 254 ≤ e.handles.keys.length then (e, 0x85, 0)
  else
    let r := emsAllocPages pages e
    let H : EmsHandle := ⟨r.2, false, fun _ => 0xFFFF, fun _ => 0xFFFF⟩
    let id := r.1.nextHandle
    ({ r.1 with nextHandle := (id + 1) % 65536, handles := r.1.handles.insert id H }, 0, id)

/-- AH=43 and AH=5A: allocate BX pages, handle in DX. -/
def int67_alloc (m : Machine) (allowZero : Bool) : Machine :=
  let r := emsAllocHandle m.ems m.bx allowZero
  let m := ({ m with ems := r.1 } : Machine).setR8h .eax r.2.1
  if r.2.1 = 0 then m.setR16 .edx r.2.2 else m

def int67_43 (m : Machine) : Machine := int67_alloc m false

def int67_5A (m : Machine) : Machine := int67_alloc m true

/-- AH=44: map logical page BX of handle DX into slot AL. -/
def int67_44 (m : Machine) : Machine :=
  let r := emsMap m (m.r8l .eax) m.dx m.bx
  r.1.setR8h .eax r.2

/-- The first loop of AH=45: unmap every slot of handle `h`. -/
def emsUnmapAll (h : Nat) : List Nat → Machine → Machine
  | [], m => m
  | s :: ss, m =>
    emsUnmapAll h ss (if m.ems.slotH s = h then
      emsSetSlot (emsLoadSlot m s 0xFFFF) s 0xFFFF 0xFFFF else m)

/-- `for (…) s_ems_pool_used[pp] = false;` -/
def emsReleasePages (e : Ems) (pages : List Nat) : Ems :=
  { e with poolUsed := pages.foldl (fun used pp => Function.update used pp false) e.poolUsed }

/-- AH=45: deallocate handle DX. -/
def int67_45 (m : Machine) : Machine :=
  match m.ems.handles.lookup m.dx with
  | none => m.setR8h .eax 0x83
  | some H =>
    if H.mapSaved then m.setR8h .eax 0x86
    else
      let m' := emsUnmapAll m.dx [0, 1, 2, 3] m
      let e := emsReleasePages m'.ems H.pages
      ({ m' with ems := { e with handles := e.handles.erase m.dx } } : Machine).setR8h .eax 0

/-- The slot an entry of AH=50's table names: by its number, or (AL=1) by a segment. -/
def tableSlot (al sec : Nat) : Nat := if al = 1 then (sec - EMS_FRAME_SEG) / 0x400 else sec

/-- The loop of AH=50 over the table at `arr`: `n` entries from entry `i` on. -/
def emsMapTable (al dx arr : Nat) : Nat → Nat → Machine → Machine × Nat
  | 0, _, m => (m, 0)
  | n + 1, i, m =>
    let lp := readw m.mem (lin (arr + i * 4))
    let sec := readw m.mem (lin (arr + i * 4 + 2))
    if al = 1 ∧ (sec < EMS_FRAME_SEG ∨ EMS_FRAME_SEG + 0x1000 ≤ sec) then (m, 0x8B)
    else
      -- the slot number is cut to a byte on its way into `ems_map`
      let r := emsMap m (tableSlot al sec % 256) dx lp
      if r.2 ≠ 0 then r else emsMapTable al dx arr n (i + 1) r.1

/-- AH=50: map or unmap CX pages of handle DX from the table at DS:SI. -/
def int67_50 (m : Machine) : Machine :=
  match m.ems.handles.lookup m.dx with
  | none => m.setR8h .eax 0x83
  | some _ =>
    if 1 < m.r8l .eax then m.setR8h .eax 0x8F
    else
      let r := emsMapTable (m.r8l .eax) m.dx (m.segPhys .ds + m.si) m.cx 0 m
      r.1.setR8h .eax r.2

/-- AH=51: reallocate handle DX to BX pages. -/
def int67_51 (m : Machine) : Machine :=
  match m.ems.handles.lookup m.dx with
  | none => m.setR8h .eax 0x83
  | some H =>
    let want := m.bx
    let held := H.pages.length % 65536
    if held < want ∧ EMS_TOTAL_PAGES - emsPagesAllocated m.ems < want - held then
      m.setR8h .eax 0x88
    else
      let m' :=
        if held < want then
          let r := emsAllocPages (want - held) m.ems
          { m with ems := { r.1 with
              handles := r.1.handles.insert m.dx { H with pages := H.pages ++ r.2 } } }
        else if want < held then
          let e := emsReleasePages m.ems (H.pages.drop want)
          { m with ems := { e with
              handles := e.handles.insert m.dx { H with pages := H.pages.take want } } }
        else m
      (m'.setR16 .ebx want).setR8h .eax 0

/-! ### The mirror -/

/-- The page of `p` that starts at `a`. -/
def page (p : Mem) (a : Nat) : Fin EMS_PAGE_SIZE → UInt8 := fun i => p (a + i)

/-- The address of a slot of the page frame. -/
def slotAddr (s : Nat) : Nat := EMS_FRAME_BASE + s * EMS_PAGE_SIZE

/-- The page frame and the pool as a copy-flush mirror. -/
def mirror (m : Machine) : Mirror Nat Nat (Fin EMS_PAGE_SIZE → UInt8) where
  loaded s := if s ≤ 3 ∧ m.ems.slotPool s ≠ 0xFFFF then some (m.ems.slotPool s) else none
  frame s := page m.mem (slotAddr s)
  pool j := page m.ems.pool (j * EMS_PAGE_SIZE)

theorem page_blit_self (p : Mem) (a : Nat) (bs : Nat → UInt8) :
    page (blit p a EMS_PAGE_SIZE bs) a = fun i : Fin EMS_PAGE_SIZE => bs i := by
  funext i
  have := i.isLt
  simp only [page, blit]
  rw [if_pos (by omega), Nat.add_sub_cancel_left]

theorem page_blit_of_apart (p : Mem) {a b : Nat} (bs : Nat → UInt8)
    (h : a + EMS_PAGE_SIZE ≤ b ∨ b + EMS_PAGE_SIZE ≤ a) :
    page (blit p a EMS_PAGE_SIZE bs) b = page p b := by
  funext i
  have := i.isLt
  simp only [page, blit]
  rw [if_neg (by omega)]

theorem apart_of_ne {j k : Nat} (h : k ≠ j) (base : Nat) :
    base + j * EMS_PAGE_SIZE + EMS_PAGE_SIZE ≤ base + k * EMS_PAGE_SIZE ∨
      base + k * EMS_PAGE_SIZE + EMS_PAGE_SIZE ≤ base + j * EMS_PAGE_SIZE := by
  rcases Nat.lt_or_gt_of_ne h with h | h
  · have := Nat.mul_le_mul_right EMS_PAGE_SIZE (Nat.succ_le_of_lt h)
    rw [Nat.succ_mul] at this
    omega
  · have := Nat.mul_le_mul_right EMS_PAGE_SIZE (Nat.succ_le_of_lt h)
    rw [Nat.succ_mul] at this
    omega

/-- Write page `d` at index `j` of an array of pages at `base`. -/
theorem pages_blit (p : Mem) (base j : Nat) (bs : Nat → UInt8) :
    (fun k => page (blit p (base + j * EMS_PAGE_SIZE) EMS_PAGE_SIZE bs) (base + k * EMS_PAGE_SIZE)) =
      Function.update (fun k => page p (base + k * EMS_PAGE_SIZE)) j
        fun i : Fin EMS_PAGE_SIZE => bs i := by
  funext k
  by_cases hkj : k = j
  · rw [hkj, Function.update_self, page_blit_self]
  · rw [Function.update_of_ne hkj, page_blit_of_apart p bs (apart_of_ne hkj base)]

theorem mirror_loaded {m : Machine} {s : Nat} (hs : s ≤ 3) (h : m.ems.slotPool s ≠ 0xFFFF) :
    (mirror m).loaded s = some (m.ems.slotPool s) := if_pos ⟨hs, h⟩

/-- The pool that `ems_load_slot` leaves is the flushed one. -/
theorem flush_mirror {m : Machine} {s : Nat} (hs : s ≤ 3) :
    flush (mirror m) s = fun j => page
      (if m.ems.slotPool s ≠ 0xFFFF then
        blit m.ems.pool (m.ems.slotPool s * EMS_PAGE_SIZE) EMS_PAGE_SIZE (bytesAt m.mem (slotAddr s))
      else m.ems.pool) (j * EMS_PAGE_SIZE) := by
  unfold flush
  by_cases h : m.ems.slotPool s = 0xFFFF
  · rw [show (mirror m).loaded s = none from if_neg fun hx => hx.2 h]
    simp only [h, ne_eq, not_true_eq_false, if_false]
    rfl
  · rw [mirror_loaded hs h]
    have hp := pages_blit m.ems.pool 0 (m.ems.slotPool s) (bytesAt m.mem (slotAddr s))
    simp only [Nat.zero_add] at hp
    simp only [ne_eq, h, not_false_eq_true, if_true, hp]
    rfl

theorem mirror_unload (m : Machine) {s : Nat} (hs : s ≤ 3) :
    mirror (emsLoadSlot m s 0xFFFF) = unload (mirror m) s := by
  have hp := flush_mirror (m := m) hs
  unfold emsLoadSlot
  rw [if_neg (by omega)]
  simp only [mirror, unload, Mirror.mk.injEq] at hp ⊢
  refine ⟨?_, by simp, hp.symm⟩
  funext t
  by_cases hts : t = s
  · simp [hts]
  · simp [Function.update_of_ne hts]

theorem mirror_load (m : Machine) {s j : Nat} (hs : s ≤ 3) (hj : j < EMS_TOTAL_PAGES) :
    mirror (emsLoadSlot m s j) = load (mirror m) s j := by
  have hp := flush_mirror (m := m) hs
  have hne : j ≠ 0xFFFF := by
    simp only [EMS_TOTAL_PAGES] at hj
    omega
  have hle : ¬ (j ≠ 0xFFFF ∧ EMS_TOTAL_PAGES ≤ j) := by omega
  unfold emsLoadSlot
  rw [if_neg (by omega)]
  simp only [if_neg hle, mirror, load, Mirror.mk.injEq] at hp ⊢
  refine ⟨?_, ?_, hp.symm⟩
  · funext t
    by_cases hts : t = s
    · simp [hts, hs, hne]
    · simp [Function.update_of_ne hts]
  · rw [if_pos hne]
    have hb := pages_blit m.mem EMS_FRAME_BASE s (bytesAt
      (if m.ems.slotPool s ≠ 0xFFFF then
        blit m.ems.pool (m.ems.slotPool s * EMS_PAGE_SIZE) EMS_PAGE_SIZE
          (bytesAt m.mem (EMS_FRAME_BASE + s * EMS_PAGE_SIZE))
      else m.ems.pool) (j * EMS_PAGE_SIZE))
    rw [hp]
    exact hb

/-! ### Giving out pool pages -/

/-- Setting one more element of a list without repetitions. -/
theorem countP_update {xs : List Nat} (hnd : xs.Nodup) {p : Nat → Bool} {j : Nat} (hj : j ∈ xs)
    (hp : p j = false) :
    xs.countP (Function.update p j true) = xs.countP p + 1 := by
  obtain ⟨pre, post, rfl⟩ := List.append_of_mem hj
  have hnd' := List.nodup_middle.mp hnd
  have hout : ∀ ys : List Nat, j ∉ ys → ys.countP (Function.update p j true) = ys.countP p := by
    intro ys hys
    refine List.countP_congr fun x hx => ?_
    rw [Function.update_of_ne (by rintro rfl; exact hys hx)]
  have hmem : j ∉ pre ++ post := (List.nodup_cons.mp hnd').1
  rw [List.mem_append, not_or] at hmem
  simp only [List.countP_append, List.countP_cons, hout pre hmem.1, hout post hmem.2,
    Function.update_self, hp]
  simp
  omega

theorem find_free {xs : List Nat} {p : Nat → Bool} (h : xs.countP p < xs.length) :
    ∃ j ∈ xs, p j = false ∧ xs.find? (fun j => !p j) = some j := by
  have hex : ∃ j ∈ xs, p j = false := by
    by_contra hno
    have hall : ∀ j ∈ xs, p j = true := fun j hj => by
      by_contra hj'
      exact hno ⟨j, hj, by simpa using hj'⟩
    rw [List.countP_eq_length.mpr hall] at h
    exact Nat.lt_irrefl _ h
  obtain ⟨j, hj, hfree⟩ := hex
  have hsome : (xs.find? fun j => !p j).isSome := by
    rw [List.find?_isSome]
    exact ⟨j, hj, by simp [hfree]⟩
  obtain ⟨k, hk⟩ := Option.isSome_iff_exists.mp hsome
  have hfound := List.find?_some hk
  exact ⟨k, List.mem_of_find?_eq_some hk, by simpa using hfound, hk⟩

/-- While a page is free, one is found, marked and zeroed. -/
theorem emsAllocPoolPage_spec {e : Ems} (h : emsPagesAllocated e < EMS_TOTAL_PAGES) :
    ∃ j, j < EMS_TOTAL_PAGES ∧ e.poolUsed j = false ∧ emsAllocPoolPage e =
      ({ e with
          poolUsed := Function.update e.poolUsed j true
          pool := fill e.pool (j * EMS_PAGE_SIZE) EMS_PAGE_SIZE 0 }, j) := by
  have hlt : (List.range EMS_TOTAL_PAGES).countP e.poolUsed <
      (List.range EMS_TOTAL_PAGES).length := by
    rw [List.length_range]
    exact h
  obtain ⟨j, hj, hfree, hk⟩ := find_free hlt
  refine ⟨j, List.mem_range.mp hj, hfree, ?_⟩
  unfold emsAllocPoolPage
  rw [hk]

theorem page_fill_self (p : Mem) (a : Nat) : page (fill p a EMS_PAGE_SIZE 0) a = fun _ => 0 := by
  funext i
  have := i.isLt
  simp only [page, fill]
  rw [if_pos (by omega)]
  rfl

theorem page_fill_of_ne (p : Mem) {j k : Nat} (h : k ≠ j) :
    page (fill p (j * EMS_PAGE_SIZE) EMS_PAGE_SIZE 0) (k * EMS_PAGE_SIZE) =
      page p (k * EMS_PAGE_SIZE) := by
  have hap := apart_of_ne h 0
  funext i
  have := i.isLt
  simp only [page, fill]
  rw [if_neg (by omega)]

/-- What giving out the pages `js` does: they were free, they are marked and zeroed, and
    nothing else changes. -/
structure GivenPages (e e' : Ems) (js : List Nat) : Prop where
  same : e' = { e with pool := e'.pool, poolUsed := e'.poolUsed }
  nodup : js.Nodup
  range : ∀ j ∈ js, j < EMS_TOTAL_PAGES
  free : ∀ j ∈ js, e.poolUsed j = false
  used : ∀ j, e'.poolUsed j = true ↔ e.poolUsed j = true ∨ j ∈ js
  zero : ∀ j ∈ js, page e'.pool (j * EMS_PAGE_SIZE) = fun _ => 0
  rest : ∀ j, j ∉ js → page e'.pool (j * EMS_PAGE_SIZE) = page e.pool (j * EMS_PAGE_SIZE)

theorem emsAllocPages_spec (n : Nat) : ∀ {e : Ems}, emsPagesAllocated e + n ≤ EMS_TOTAL_PAGES →
    (emsAllocPages n e).2.length = n ∧ GivenPages e (emsAllocPages n e).1 (emsAllocPages n e).2 := by
  induction n with
  | zero =>
    intro e _
    exact ⟨rfl, rfl, List.nodup_nil, by simp [emsAllocPages], by simp [emsAllocPages],
      by simp [emsAllocPages], by simp [emsAllocPages], fun _ _ => rfl⟩
  | succ n ih =>
    intro e h
    obtain ⟨j, hj, hfree, hpage⟩ := emsAllocPoolPage_spec (e := e) (by omega)
    unfold emsAllocPages
    simp only [hpage]
    have hcount : emsPagesAllocated { e with
        poolUsed := Function.update e.poolUsed j true
        pool := fill e.pool (j * EMS_PAGE_SIZE) EMS_PAGE_SIZE 0 } = emsPagesAllocated e + 1 :=
      countP_update List.nodup_range (List.mem_range.mpr hj) hfree
    obtain ⟨hlen, hg⟩ := ih (e := { e with
        poolUsed := Function.update e.poolUsed j true
        pool := fill e.pool (j * EMS_PAGE_SIZE) EMS_PAGE_SIZE 0 }) (by omega)
    -- the later pages were free after `j` was taken, so `j` is not among them
    have hnot : j ∉ (emsAllocPages n { e with
        poolUsed := Function.update e.poolUsed j true
        pool := fill e.pool (j * EMS_PAGE_SIZE) EMS_PAGE_SIZE 0 }).2 := fun hmem => by
      have := hg.free j hmem
      simp at this
    refine ⟨by simp [hlen], ?_, List.nodup_cons.mpr ⟨hnot, hg.nodup⟩, ?_, ?_, ?_, ?_, ?_⟩
    · rw [hg.same]
    · intro k hk
      rcases List.mem_cons.mp hk with rfl | hk
      · exact hj
      · exact hg.range k hk
    · intro k hk
      rcases List.mem_cons.mp hk with rfl | hk
      · exact hfree
      · have := hg.free k hk
        have hkj : k ≠ j := by
          rintro rfl
          exact hnot hk
        simpa only [Function.update_of_ne hkj] using this
    · intro k
      rw [hg.used k, List.mem_cons]
      by_cases hkj : k = j
      · simp [hkj]
      · simp [hkj]
    · intro k hk
      rcases List.mem_cons.mp hk with rfl | hk
      · rw [hg.rest k hnot]
        exact page_fill_self _ _
      · exact hg.zero k hk
    · intro k hk
      rw [List.mem_cons, not_or] at hk
      rw [hg.rest k hk.2]
      exact page_fill_of_ne _ hk.1

theorem emsReleasePages_used (e : Ems) (pages : List Nat) (j : Nat) :
    (emsReleasePages e pages).poolUsed j = true ↔ e.poolUsed j = true ∧ j ∉ pages := by
  unfold emsReleasePages
  simp only
  induction pages generalizing e with
  | nil => simp
  | cons k ks ih =>
    have h := ih { e with poolUsed := Function.update e.poolUsed k false }
    simp only [List.foldl_cons]
    rw [h, List.mem_cons, not_or]
    by_cases hjk : j = k
    · simp [hjk]
    · simp [hjk]

end Dosiz.Ems
