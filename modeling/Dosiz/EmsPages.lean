/-
  Dosiz/EmsPages.lean
  ===================
  **Who owns a pool page** (INT 67h AH=42, 43, 45, 51, 5A of `bridge.cc`).

  Ownership is kept twice, as the page list of each handle and as the bitmap of pages in
  use.  The two agree after every run.  Handle numbers come from a 16-bit counter that is
  never set back: the first 65534 allocations after a reset get numbers of their own, the
  next one gets FFFFh.
-/
import Dosiz.EmsWindow

namespace Dosiz.Ems

open ByteMemory Machine Transition

/-- AH=42: free and total pages in BX and DX. -/
def int67_42 (m : Machine) : Machine :=
  (m.setR8h .eax 0).setR16s
    [(.ebx, EMS_TOTAL_PAGES - emsPagesAllocated m.ems), (.edx, EMS_TOTAL_PAGES)]

/-! ### The pages of all handles -/

/-- The pages of the handles in `es`, handle by handle. -/
def pagesOf (es : List (Σ _ : Nat, EmsHandle)) : List Nat := es.flatMap fun x => x.2.pages

def allPages (e : Ems) : List Nat := pagesOf e.handles.entries

/-- The lists of the handles and the bitmap agree, and no page is listed twice. -/
structure PagesExact (e : Ems) : Prop where
  nodup : (allPages e).Nodup
  used : ∀ j, j ∈ allPages e ↔ j < EMS_TOTAL_PAGES ∧ e.poolUsed j = true

theorem pagesOf_append (l₁ l₂ : List (Σ _ : Nat, EmsHandle)) :
    pagesOf (l₁ ++ l₂) = pagesOf l₁ ++ pagesOf l₂ := List.flatMap_append

/-- The entry of a live handle, with what `erase` and `insert` make of the others. -/
theorem entries_split {e : Ems} {h : Nat} {H : EmsHandle} (hH : e.handles.lookup h = some H) :
    ∃ l₁ l₂, e.handles.entries = l₁ ++ ⟨h, H⟩ :: l₂ ∧
      (e.handles.erase h).entries = l₁ ++ l₂ ∧
      ∀ H', (e.handles.insert h H').entries = ⟨h, H'⟩ :: (l₁ ++ l₂) := by
  have hkey : h ∈ e.handles.entries.keys :=
    AList.mem_keys.mp (AList.lookup_isSome.mp (by rw [hH]; rfl))
  obtain ⟨H₀, l₁, l₂, -, hl, herase⟩ := List.exists_of_kerase hkey
  have hmem : (⟨h, H₀⟩ : Σ _ : Nat, EmsHandle) ∈ e.handles.entries := by
    rw [hl]
    simp
  have hH₀ : e.handles.lookup h = some H₀ := AList.mem_lookup_iff.mpr hmem
  rw [hH] at hH₀
  cases hH₀
  refine ⟨l₁, l₂, hl, herase, fun H' => ?_⟩
  rw [AList.entries_insert, herase]

/-- Replacing the pages of handle `h` replaces them in the whole. -/
theorem allPages_split {e : Ems} {h : Nat} {H : EmsHandle} (hH : e.handles.lookup h = some H) :
    ∃ others, (allPages e).Perm (H.pages ++ others) ∧
      (pagesOf (e.handles.erase h).entries).Perm others ∧
      ∀ H' : EmsHandle, (pagesOf (e.handles.insert h H').entries).Perm (H'.pages ++ others) := by
  obtain ⟨l₁, l₂, hl, herase, hinsert⟩ := entries_split hH
  refine ⟨pagesOf (l₁ ++ l₂), ?_, by rw [herase], fun H' => by rw [hinsert H']; exact List.Perm.refl _⟩
  rw [allPages, hl, pagesOf_append]
  have hcons : pagesOf (⟨h, H⟩ :: l₂) = H.pages ++ pagesOf l₂ := rfl
  rw [hcons, pagesOf_append]
  exact List.perm_append_comm_assoc _ _ _

theorem PagesExact.count {e : Ems} (h : PagesExact e) : emsPagesAllocated e = (allPages e).length := by
  have hperm : (allPages e).Perm ((List.range EMS_TOTAL_PAGES).filter e.poolUsed) := by
    refine (List.perm_ext_iff_of_nodup h.nodup (List.nodup_range.filter _)).mpr fun j => ?_
    rw [h.used, List.mem_filter, List.mem_range]
  rw [hperm.length_eq, emsPagesAllocated, List.countP_eq_length_filter]

/-- A pool page is listed in one place. -/
theorem PagesExact.owner {m : Machine} (h : PagesExact m.ems) {j a b lp lq : Nat}
    (ha : Owns m a lp j) (hb : Owns m b lq j) : a = b ∧ lp = lq := by
  obtain ⟨H, hH, hp⟩ := ha
  obtain ⟨K, hK, hq⟩ := hb
  have hnd := List.nodup_flatMap.mp h.nodup
  have hHmem : (⟨a, H⟩ : Σ _ : Nat, EmsHandle) ∈ m.ems.handles.entries := AList.mem_lookup_iff.mp hH
  have hKmem : (⟨b, K⟩ : Σ _ : Nat, EmsHandle) ∈ m.ems.handles.entries := AList.mem_lookup_iff.mp hK
  have hab : a = b := by
    by_contra hne
    have hsymm : Std.Symm (Function.onFun List.Disjoint
        fun x : (Σ _ : Nat, EmsHandle) => x.2.pages) := ⟨fun _ _ hd => List.disjoint_symm hd⟩
    have hdisj := hnd.2.forall hHmem hKmem fun heq => hne (congrArg Sigma.fst heq)
    exact hdisj (List.mem_of_getElem? hp) (List.mem_of_getElem? hq)
  subst hab
  obtain rfl := Option.some.inj (hH.symm.trans hK)
  have hlp := (List.getElem?_eq_some_iff.mp hp).1
  exact ⟨rfl, (List.getElem?_inj hlp (hnd.1 _ hHmem)).mp (hp.trans hq.symm)⟩

theorem mem_allPages_iff (m : Machine) (j : Nat) : j ∈ allPages m.ems ↔ ∃ h lp, Owns m h lp j := by
  constructor
  · intro hj
    obtain ⟨⟨h, H⟩, hmem, hp⟩ := List.mem_flatMap.mp hj
    obtain ⟨lp, hlp⟩ := List.mem_iff_getElem?.mp hp
    exact ⟨h, lp, H, AList.mem_lookup_iff.mpr hmem, hlp⟩
  · rintro ⟨h, lp, H, hH, hp⟩
    exact List.mem_flatMap.mpr ⟨⟨h, H⟩, AList.mem_lookup_iff.mp hH, List.mem_of_getElem? hp⟩

/-! ### What each call does to them -/

/-- Only the bitmap and the handles matter. -/
theorem PagesExact.same {e e' : Ems} (h : PagesExact e) (hu : e'.poolUsed = e.poolUsed)
    (hh : e'.handles = e.handles) : PagesExact e' := by
  have hall : allPages e' = allPages e := by rw [allPages, hh, allPages]
  refine ⟨hall ▸ h.nodup, fun j => ?_⟩
  rw [hall, hu]
  exact h.used j

/-- Pages given out join the pages of one handle. -/
theorem PagesExact.given {e e' : Ems} (h : PagesExact e) {js pages : List Nat}
    (hg : GivenPages e e' js) (hperm : pages.Perm (js ++ allPages e)) :
    pages.Nodup ∧ ∀ j, j ∈ pages ↔ j < EMS_TOTAL_PAGES ∧ e'.poolUsed j = true := by
  have hdisj : List.Disjoint js (allPages e) := by
    intro j hj hall
    have hused := ((h.used j).mp hall).2
    rw [hg.free j hj] at hused
    cases hused
  refine ⟨hperm.nodup_iff.mpr (List.nodup_append'.mpr ⟨hg.nodup, h.nodup, hdisj⟩), fun j => ?_⟩
  rw [hperm.mem_iff, List.mem_append, h.used, hg.used]
  constructor
  · rintro (hj | ⟨hlt, hu⟩)
    · exact ⟨hg.range j hj, .inr hj⟩
    · exact ⟨hlt, .inl hu⟩
  · rintro ⟨hlt, hu | hj⟩
    · exact .inr ⟨hlt, hu⟩
    · exact .inl hj

/-- Pages released leave the pages of one handle. -/
theorem PagesExact.released {e : Ems} (h : PagesExact e) {gone pages : List Nat}
    (hperm : (allPages e).Perm (gone ++ pages)) :
    pages.Nodup ∧
      ∀ j, j ∈ pages ↔ j < EMS_TOTAL_PAGES ∧ (emsReleasePages e gone).poolUsed j = true := by
  have hnd := List.nodup_append'.mp (hperm.nodup_iff.mp h.nodup)
  refine ⟨hnd.2.1, fun j => ?_⟩
  rw [emsReleasePages_used]
  have hall : j ∈ allPages e ↔ j ∈ gone ∨ j ∈ pages := by rw [hperm.mem_iff, List.mem_append]
  rw [h.used] at hall
  constructor
  · intro hj
    obtain ⟨hlt, hu⟩ := hall.mpr (.inr hj)
    exact ⟨hlt, hu, fun hgone => hnd.2.2 hgone hj⟩
  · rintro ⟨hlt, hu, hgone⟩
    exact (hall.mp ⟨hlt, hu⟩).resolve_left hgone

theorem emsLoadSlot_bitmap (m : Machine) (s j : Nat) :
    (emsLoadSlot m s j).ems.poolUsed = m.ems.poolUsed ∧
      (emsLoadSlot m s j).ems.handles = m.ems.handles ∧
        (emsLoadSlot m s j).ems.nextHandle = m.ems.nextHandle := by
  unfold emsLoadSlot
  split <;> exact ⟨rfl, rfl, rfl⟩

/-- The parts of the globals that mapping does not write. -/
def SameOwners (m m' : Machine) : Prop :=
  m'.ems.poolUsed = m.ems.poolUsed ∧ m'.ems.handles = m.ems.handles ∧
    m'.ems.nextHandle = m.ems.nextHandle

theorem SameOwners.trans {m m' m'' : Machine} (h₁ : SameOwners m m') (h₂ : SameOwners m' m'') :
    SameOwners m m'' := ⟨h₂.1.trans h₁.1, h₂.2.1.trans h₁.2.1, h₂.2.2.trans h₁.2.2⟩

theorem sameOwners_unload (m : Machine) (s h lp j : Nat) :
    SameOwners m (emsSetSlot (emsLoadSlot m s j) s h lp) := emsLoadSlot_bitmap m s j

theorem sameOwners_emsMap (m : Machine) (s h lp : Nat) : SameOwners m (emsMap m s h lp).1 := by
  unfold emsMap
  split
  · exact ⟨rfl, rfl, rfl⟩
  · cases m.ems.handles.lookup h with
    | none => exact ⟨rfl, rfl, rfl⟩
    | some H =>
      dsimp only
      split
      · exact sameOwners_unload m s _ _ _
      · cases H.pages[lp]? with
        | none => exact ⟨rfl, rfl, rfl⟩
        | some j => exact sameOwners_unload m s _ _ j

theorem sameOwners_emsMapTable (al dx arr : Nat) : ∀ (n i : Nat) (m : Machine),
    SameOwners m (emsMapTable al dx arr n i m).1
  | 0, _, _ => ⟨rfl, rfl, rfl⟩
  | n + 1, i, m => by
    unfold emsMapTable
    dsimp only
    split_ifs
    · exact ⟨rfl, rfl, rfl⟩
    · exact sameOwners_emsMap m _ _ _
    · exact (sameOwners_emsMap m _ _ _).trans (sameOwners_emsMapTable al dx arr n (i + 1) _)

theorem sameOwners_emsUnmapAll (h : Nat) : ∀ (ss : List Nat) (m : Machine),
    SameOwners m (emsUnmapAll h ss m)
  | [], _ => ⟨rfl, rfl, rfl⟩
  | s :: ss, m => by
    unfold emsUnmapAll
    refine SameOwners.trans ?_ (sameOwners_emsUnmapAll h ss _)
    split
    · exact sameOwners_unload m s _ _ _
    · exact ⟨rfl, rfl, rfl⟩

/-! ### The counter -/

/-- After `k` allocations: the pages are in order, the counter is at `k` + 1, and every live handle has
    a number from 1 to `k`. -/
structure Ledger (k : Nat) (m : Machine) : Prop where
  pages : PagesExact m.ems
  next : m.ems.nextHandle = k + 1
  live : ∀ h H, m.ems.handles.lookup h = some H → 1 ≤ h ∧ h ≤ k

theorem Ledger.same {k : Nat} {m m' : Machine} (h : Ledger k m) (hs : SameOwners m m') : Ledger k m' where
  pages := h.pages.same hs.1 hs.2.1
  next := hs.2.2.trans h.next
  live := fun a H hH => h.live a H (hs.2.1 ▸ hH)

theorem Ledger.regs {k : Nat} {m : Machine} (h : Ledger k m) (r q : Reg) (v w : Nat) :
    Ledger k ((m.setR16 r v).setR8h q w) := h.same ⟨rfl, rfl, rfl⟩

/-- AH=43 or AH=5A has something to give. -/
def HasRoom (m : Machine) (allowZero : Bool) : Prop :=
  (m.bx ≠ 0 ∨ allowZero = true) ∧ m.bx ≤ EMS_TOTAL_PAGES - emsPagesAllocated m.ems ∧
    m.ems.handles.keys.length < 254

instance (m : Machine) (allowZero : Bool) : Decidable (HasRoom m allowZero) := by
  unfold HasRoom
  infer_instance

theorem int67_alloc_refused {m : Machine} {allowZero : Bool} (h : ¬ HasRoom m allowZero) :
    (int67_alloc m allowZero).ems = m.ems ∧ (int67_alloc m allowZero).r8h .eax ≠ 0 := by
  have hfail : ∃ st, emsAllocHandle m.ems m.bx allowZero = (m.ems, st, 0) ∧ st % 256 ≠ 0 := by
    unfold emsAllocHandle
    split_ifs with h₁ h₂ h₃
    · exact ⟨_, rfl, by decide⟩
    · exact ⟨_, rfl, by decide⟩
    · exact ⟨_, rfl, by decide⟩
    · exfalso
      apply h
      refine ⟨?_, by omega, by omega⟩
      cases allowZero
      · exact .inl fun h₀ => h₁ ⟨h₀, rfl⟩
      · exact .inr rfl
  obtain ⟨st, heq, hst⟩ := hfail
  have hst₀ : st ≠ 0 := fun h₀ => hst (by rw [h₀])
  unfold int67_alloc
  simp only [heq, if_neg hst₀, r8h_setR8h]
  exact ⟨rfl, hst⟩

/-- What an allocation with room does. -/
theorem int67_alloc_given {m : Machine} {allowZero : Bool} (h : HasRoom m allowZero) :
    ∃ e' js, GivenPages m.ems e' js ∧ js.length = m.bx ∧
      (int67_alloc m allowZero).ems = { e' with
        nextHandle := (m.ems.nextHandle + 1) % 65536
        handles := m.ems.handles.insert m.ems.nextHandle
          ⟨js, false, fun _ => 0xFFFF, fun _ => 0xFFFF⟩ } ∧
      (int67_alloc m allowZero).r8h .eax = 0 ∧
      (int67_alloc m allowZero).dx = m.ems.nextHandle % 65536 := by
  obtain ⟨hzero, hfree, hkeys⟩ := h
  rcases emsAllocHandle_cases m.ems m.bx allowZero with ⟨-, hst⟩ | ⟨e', js, hg, hlen, heq⟩
  · exfalso
    apply hst
    have hboth : ¬ (m.bx = 0 ∧ allowZero = false) := by
      rintro ⟨h₀, h₁⟩
      rcases hzero with h | h
      · exact h h₀
      · rw [h] at h₁
        cases h₁
    unfold emsAllocHandle
    rw [if_neg hboth, if_neg (by omega), if_neg (by omega)]
    rfl
  · refine ⟨e', js, hg, hlen, ?_, ?_, ?_⟩
    · unfold int67_alloc
      simp only [heq, if_true]
      rfl
    · unfold int67_alloc
      simp only [heq, if_true]
      rw [r8h_setR16_of_ne _ _ (by decide), r8h_setR8h]
    · unfold int67_alloc
      simp only [heq, if_true, dx, r16_setR16]

theorem Ledger.alloc {k : Nat} {m : Machine} (h : Ledger k m) (hk : k < 65534) {allowZero : Bool}
    (hroom : HasRoom m allowZero) : Ledger (k + 1) (int67_alloc m allowZero) := by
  obtain ⟨e', js, hg, -, hems, -, -⟩ := int67_alloc_given hroom
  have hnew : m.ems.nextHandle ∉ m.ems.handles := by
    intro hmem
    obtain ⟨H, hH⟩ := Option.isSome_iff_exists.mp (AList.lookup_isSome.mpr hmem)
    have := (h.live _ H hH).2
    rw [h.next] at this
    omega
  constructor
  · rw [hems]
    have hall : pagesOf (m.ems.handles.insert m.ems.nextHandle
        ⟨js, false, fun _ => 0xFFFF, fun _ => 0xFFFF⟩).entries = js ++ allPages m.ems := by
      rw [AList.entries_insert_of_notMem hnew]
      rfl
    obtain ⟨hnd, hused⟩ := h.pages.given hg (List.Perm.refl _)
    refine ⟨?_, fun j => ?_⟩
    · rw [allPages, hall]
      exact hnd
    · rw [allPages, hall]
      exact hused j
  · rw [hems, h.next]
    dsimp only
    omega
  · intro a H hH
    rw [hems] at hH
    dsimp only at hH
    by_cases ha : a = m.ems.nextHandle
    · rw [ha, h.next]
      omega
    · rw [AList.lookup_insert_ne ha] at hH
      have := h.live a H hH
      omega

theorem Ledger.free {k : Nat} {m : Machine} (h : Ledger k m) : Ledger k (int67_45 m) := by
  unfold int67_45
  cases hH : m.ems.handles.lookup m.dx with
  | none => exact h.same ⟨rfl, rfl, rfl⟩
  | some H =>
    dsimp only
    split
    · exact h.same ⟨rfl, rfl, rfl⟩
    · have hu := h.same (sameOwners_emsUnmapAll m.dx [0, 1, 2, 3] m)
      have hhandles := (sameOwners_emsUnmapAll m.dx [0, 1, 2, 3] m).2.1
      generalize emsUnmapAll m.dx [0, 1, 2, 3] m = u at hu hhandles
      have hHu : u.ems.handles.lookup m.dx = some H := hhandles ▸ hH
      obtain ⟨others, hperm, herase, -⟩ := allPages_split hHu
      obtain ⟨hnd, hused⟩ := hu.pages.released hperm
      refine ⟨⟨herase.nodup_iff.mpr hnd, fun j => (herase.mem_iff).trans (hused j)⟩, hu.next, ?_⟩
      intro a K hK
      refine hu.live a K ?_
      by_cases ha : a = m.dx
      · rw [ha] at hK
        have hgone : (u.ems.handles.erase m.dx).lookup m.dx = none := AList.lookup_erase _ _
        cases hgone.symm.trans hK
      · exact (AList.lookup_erase_ne ha).symm.trans hK

theorem Ledger.resize {k : Nat} {m : Machine} (h : Ledger k m) : Ledger k (int67_51 m) := by
  unfold int67_51
  cases hH : m.ems.handles.lookup m.dx with
  | none => exact h.same ⟨rfl, rfl, rfl⟩
  | some H =>
    dsimp only
    obtain ⟨others, hperm, -, hinsert⟩ := allPages_split hH
    have hcount : emsPagesAllocated m.ems ≤ EMS_TOTAL_PAGES := by
      have := List.countP_le_length (p := m.ems.poolUsed) (l := List.range EMS_TOTAL_PAGES)
      rwa [List.length_range] at this
    have hlen : H.pages.length ≤ EMS_TOTAL_PAGES := by
      rw [h.pages.count, hperm.length_eq, List.length_append] at hcount
      omega
    have hheld : H.pages.length % 65536 = H.pages.length :=
      Nat.mod_eq_of_lt (Nat.lt_of_le_of_lt hlen (by decide))
    -- a handle that is replaced was live before
    have hlive : ∀ (H' : EmsHandle) a K, (m.ems.handles.insert m.dx H').lookup a = some K →
        1 ≤ a ∧ a ≤ k := by
      intro H' a K hK
      by_cases ha : a = m.dx
      · rw [ha]
        exact h.live m.dx H hH
      · rw [AList.lookup_insert_ne ha] at hK
        exact h.live a K hK
    rw [hheld]
    split
    · exact h.same ⟨rfl, rfl, rfl⟩
    · rename_i hroom
      refine Ledger.regs ?_ _ _ _ _
      split
      · -- growing: the pages are given
        obtain ⟨-, hg⟩ := emsAllocPages_spec (m.bx - H.pages.length) (e := m.ems) (by omega)
        generalize emsAllocPages (m.bx - H.pages.length) m.ems = r at hg
        have hsame : r.1.handles = m.ems.handles := by rw [hg.same]
        have hnext : r.1.nextHandle = m.ems.nextHandle := by rw [hg.same]
        rw [hsame]
        have hnew : (pagesOf (m.ems.handles.insert m.dx
            { H with pages := H.pages ++ r.2 }).entries).Perm (r.2 ++ allPages m.ems) := by
          refine (hinsert _).trans ?_
          rw [List.append_assoc]
          exact (List.perm_append_comm_assoc _ _ _).trans ((List.Perm.refl _).append hperm.symm)
        exact ⟨⟨(h.pages.given hg hnew).1, (h.pages.given hg hnew).2⟩, hnext.trans h.next, hlive _⟩
      · split
        · -- shrinking: the pages from `want` on are released
          have hsplit : (H.pages.take m.bx ++ H.pages.drop m.bx).Perm
              (H.pages.drop m.bx ++ H.pages.take m.bx) := List.perm_append_comm
          rw [List.take_append_drop] at hsplit
          have hcut : (allPages m.ems).Perm (H.pages.drop m.bx ++ (H.pages.take m.bx ++ others)) := by
            refine hperm.trans ?_
            rw [← List.append_assoc]
            exact hsplit.append_right others
          obtain ⟨hnd, hused⟩ := h.pages.released hcut
          have hnew := hinsert { H with pages := H.pages.take m.bx }
          exact ⟨⟨hnew.nodup_iff.mpr hnd, fun j => hnew.mem_iff.trans (hused j)⟩, h.next, hlive _⟩
        · exact h

/-! ### Runs -/

/-- The number AH=43 or AH=5A has just given is that of no live handle, not 0 and not FFFFh. -/
def HandleFresh (m : Machine) : EmsEvent → Prop
  | .call .ah43 => (int67_43 m).r8h .eax = 0 → m.ems.handles.lookup (int67_43 m).dx = none ∧
      (int67_43 m).dx ≠ 0 ∧ (int67_43 m).dx ≠ 0xFFFF
  | .call .ah5A => (int67_5A m).r8h .eax = 0 → m.ems.handles.lookup (int67_5A m).dx = none ∧
      (int67_5A m).dx ≠ 0 ∧ (int67_5A m).dx ≠ 0xFFFF
  | _ => True

/-- Every page in use belongs to one logical page of one live handle, every page of a live handle is in
    use, and AH=42 counts the pages of the live handles. -/
structure PagesSound (m : Machine) : Prop where
  owned : ∀ j < EMS_TOTAL_PAGES, m.ems.poolUsed j = true → ∃ h lp, Owns m h lp j ∧
    ∀ a lq, Owns m a lq j → a = h ∧ lq = lp
  used : ∀ h lp j, Owns m h lp j → j < EMS_TOTAL_PAGES ∧ m.ems.poolUsed j = true
  free : (int67_42 m).bx = EMS_TOTAL_PAGES - (allPages m.ems).length ∧
    (allPages m.ems).length ≤ EMS_TOTAL_PAGES

/-- In every state of the run from `m` the pages are in order, and every number given is fresh. -/
def SoundRun : Machine → List EmsEvent → Prop
  | m, [] => PagesSound m
  | m, e :: es => PagesSound m ∧ HandleFresh m e ∧ SoundRun (e.next m) es

/-- The event allocates. -/
def allocates (m : Machine) : EmsEvent → Bool
  | .call .ah43 => HasRoom m false
  | .call .ah5A => HasRoom m true
  | _ => false

/-- How many events of the run from `m` allocate. -/
def allocations : Machine → List EmsEvent → Nat
  | _, [] => 0
  | m, e :: es => (if allocates m e then 1 else 0) + allocations (e.next m) es

theorem PagesExact.sound {m : Machine} (h : PagesExact m.ems) : PagesSound m := by
  have hcount := h.count
  have hle : emsPagesAllocated m.ems ≤ EMS_TOTAL_PAGES := by
    have := List.countP_le_length (p := m.ems.poolUsed) (l := List.range EMS_TOTAL_PAGES)
    rwa [List.length_range] at this
  refine ⟨fun j hj hu => ?_, fun a lp j ho => ?_, ?_, by omega⟩
  · obtain ⟨a, lp, ho⟩ := (mem_allPages_iff m j).mp ((h.used j).mpr ⟨hj, hu⟩)
    exact ⟨a, lp, ho, fun b lq hb => h.owner hb ho⟩
  · exact (h.used j).mp ((mem_allPages_iff m j).mpr ⟨a, lp, ho⟩)
  · rw [← hcount]
    have hlt : EMS_TOTAL_PAGES - emsPagesAllocated m.ems < 65536 :=
      Nat.lt_of_le_of_lt (Nat.sub_le _ _) (by decide)
    show (Machine.setR16 _ .edx _).r16 .ebx = _
    rw [r16_setR16_of_ne _ _ (by decide), r16_setR16, Nat.mod_eq_of_lt hlt]

/-- The answer of AH=43 and AH=5A. -/
def GivesFresh (m : Machine) (allowZero : Bool) : Prop :=
  (int67_alloc m allowZero).r8h .eax = 0 →
    m.ems.handles.lookup (int67_alloc m allowZero).dx = none ∧
      (int67_alloc m allowZero).dx ≠ 0 ∧ (int67_alloc m allowZero).dx ≠ 0xFFFF

/-- The first 65534 allocations give fresh numbers, the next one FFFFh. -/
theorem givesFresh_iff {k : Nat} {m : Machine} (h : Ledger k m) (hk : k ≤ 65534) {allowZero : Bool}
    (hroom : HasRoom m allowZero) : GivesFresh m allowZero ↔ k < 65534 := by
  obtain ⟨e', js, -, -, -, hah, hdx⟩ := int67_alloc_given hroom
  have hid : (int67_alloc m allowZero).dx = k + 1 := by
    rw [hdx, h.next]
    omega
  constructor
  · intro hf
    have := (hf hah).2.2
    rw [hid] at this
    omega
  · intro hlt _
    rw [hid]
    refine ⟨?_, by omega, by omega⟩
    cases hl : m.ems.handles.lookup (k + 1) with
    | none => rfl
    | some H =>
      have := (h.live _ H hl).2
      omega

theorem givesFresh_of_refused {m : Machine} {allowZero : Bool} (h : ¬ HasRoom m allowZero) :
    GivesFresh m allowZero := fun hah => absurd hah (int67_alloc_refused h).2

/-- One event: what an allocation counts, and what the others keep. -/
theorem ledger_next {k : Nat} {m : Machine} (h : Ledger k m) (hk : k ≤ 65534) (e : EmsEvent) :
    (allocates m e = true ∧ (HandleFresh m e ↔ k < 65534) ∧ (k < 65534 → Ledger (k + 1) (e.next m))) ∨
      (allocates m e = false ∧ HandleFresh m e ∧ Ledger k (e.next m)) := by
  have halloc : ∀ allowZero : Bool,
      (decide (HasRoom m allowZero) = true ∧ (GivesFresh m allowZero ↔ k < 65534) ∧
        (k < 65534 → Ledger (k + 1) (int67_alloc m allowZero))) ∨
      (decide (HasRoom m allowZero) = false ∧ GivesFresh m allowZero ∧
        Ledger k (int67_alloc m allowZero)) := by
    intro allowZero
    by_cases hroom : HasRoom m allowZero
    · exact .inl ⟨decide_eq_true hroom, givesFresh_iff h hk hroom, fun hlt => h.alloc hlt hroom⟩
    · refine .inr ⟨decide_eq_false hroom, givesFresh_of_refused hroom, h.same ?_⟩
      have hems := (int67_alloc_refused hroom).1
      exact ⟨by rw [hems], by rw [hems], by rw [hems]⟩
  cases e with
  | regs cpu => exact .inr ⟨rfl, trivial, h.same ⟨rfl, rfl, rfl⟩⟩
  | write a b => exact .inr ⟨rfl, trivial, h.same ⟨rfl, rfl, rfl⟩⟩
  | call c =>
    cases c with
    | ah43 => exact halloc false
    | ah5A => exact halloc true
    | ah45 => exact .inr ⟨rfl, trivial, h.free⟩
    | ah51 => exact .inr ⟨rfl, trivial, h.resize⟩
    | ah44 => exact .inr ⟨rfl, trivial, h.same (sameOwners_emsMap m _ _ _)⟩
    | ah50 =>
      refine .inr ⟨rfl, trivial, h.same ?_⟩
      show SameOwners m (int67_50 m)
      unfold int67_50
      cases m.ems.handles.lookup m.dx with
      | none => exact ⟨rfl, rfl, rfl⟩
      | some H =>
        dsimp only
        split
        · exact ⟨rfl, rfl, rfl⟩
        · exact sameOwners_emsMapTable _ _ _ _ _ m

theorem soundRun_iff : ∀ {es : List EmsEvent} {k : Nat} {m : Machine}, Ledger k m → k ≤ 65534 →
    (SoundRun m es ↔ k + allocations m es ≤ 65534)
  | [], k, m, h, hk => iff_of_true h.pages.sound hk
  | e :: es, k, m, h, hk => by
    have hs := h.pages.sound
    unfold SoundRun allocations
    rcases ledger_next h hk e with ⟨ha, hfresh, hnext⟩ | ⟨ha, hfresh, hnext⟩
    · rw [ha, if_pos rfl]
      by_cases hlt : k < 65534
      · rw [soundRun_iff (hnext hlt) (by omega)]
        constructor
        · rintro ⟨-, -, hle⟩
          omega
        · intro hle
          exact ⟨hs, hfresh.mpr hlt, by omega⟩
      · refine iff_of_false (fun hr => hlt (hfresh.mp hr.2.1)) (by omega)
    · rw [ha, if_neg (by decide), soundRun_iff hnext hk, Nat.zero_add]
      exact ⟨fun hr => hr.2.2, fun hle => ⟨hs, hfresh, hle⟩⟩

/-- What `ems_reset` leaves. -/
structure EmsReset (m : Machine) : Prop where
  handles : m.ems.handles = ∅
  used : ∀ j, m.ems.poolUsed j = false
  next : m.ems.nextHandle = 1

theorem EmsReset.ledger {m : Machine} (h : EmsReset m) : Ledger 0 m := by
  have hall : allPages m.ems = [] := by
    rw [allPages, h.handles]
    rfl
  refine ⟨⟨by rw [hall]; exact List.nodup_nil, fun j => ?_⟩, h.next, fun a H hH => ?_⟩
  · rw [hall, h.used]
    simp
  · rw [h.handles, AList.lookup_empty] at hH
    cases hH

/-- **Pool pages and handle numbers.**  From a reset on, the pages are in order and every handle
    number given is fresh, in every state of the run, exactly where the run allocates at most
    65534 times. -/
theorem emsPages_sound_iff {m : Machine} (h : EmsReset m) (es : List EmsEvent) :
    SoundRun m es ↔ allocations m es ≤ 65534 := by
  rw [soundRun_iff h.ledger (by decide), Nat.zero_add]

theorem emsReset_boot : EmsReset bootMachine := ⟨rfl, fun _ => rfl, rfl⟩

theorem emsPages_sound_iff_mapped : SoundRun bootMachine mappedEvents :=
  (emsPages_sound_iff emsReset_boot mappedEvents).mpr (by decide +kernel)

/-! ### The counter runs out -/

/-- No handle is live and the counter is at `k` + 1. -/
structure Idle (k : Nat) (m : Machine) : Prop where
  entries : m.ems.handles.entries = []
  next : m.ems.nextHandle = k + 1

/-- A handle without pages is allocated and given back. -/
def cycle (k : Nat) : List EmsEvent :=
  [.regs (emsCpu 0 0), .call .ah5A, .regs (emsCpu 0 (BitVec.ofNat 32 (k + 1))), .call .ah45]

theorem Idle.hasRoom {k : Nat} {m : Machine} (h : Idle k m) (hbx : m.bx = 0) : HasRoom m true := by
  refine ⟨.inr rfl, by rw [hbx]; exact Nat.zero_le _, ?_⟩
  rw [AList.keys, h.entries]
  decide

/-- The handle given is the only one, and without pages. -/
theorem Idle.given {k : Nat} {m : Machine} (h : Idle k m) (hbx : m.bx = 0) :
    (int67_alloc m true).ems.handles.entries = [⟨k + 1, ⟨[], false, fun _ => 0xFFFF, fun _ => 0xFFFF⟩⟩] ∧
      (int67_alloc m true).ems.nextHandle = (k + 2) % 65536 := by
  obtain ⟨e', js, hg, hlen, hems, -, -⟩ := int67_alloc_given (h.hasRoom hbx)
  rw [hbx, List.length_eq_zero_iff] at hlen
  rw [hems, h.next, hlen]
  constructor
  · show (AList.insert (k + 1) _ m.ems.handles).entries = _
    rw [AList.entries_insert, h.entries]
    rfl
  · rfl

theorem Idle.freed {k : Nat} {m : Machine} {H : EmsHandle} (hentries : m.ems.handles.entries = [⟨k, H⟩])
    (hdx : m.dx = k) (hs : H.mapSaved = false) :
    (int67_45 m).ems.handles.entries = [] ∧ (int67_45 m).ems.nextHandle = m.ems.nextHandle := by
  have hH : m.ems.handles.lookup m.dx = some H := by
    refine AList.mem_lookup_iff.mpr ?_
    rw [hentries, hdx]
    exact List.mem_singleton_self _
  have hsame := sameOwners_emsUnmapAll m.dx [0, 1, 2, 3] m
  have heq : int67_45 m = ({ emsUnmapAll m.dx [0, 1, 2, 3] m with ems :=
      { emsReleasePages (emsUnmapAll m.dx [0, 1, 2, 3] m).ems H.pages with
        handles := (emsReleasePages (emsUnmapAll m.dx [0, 1, 2, 3] m).ems H.pages).handles.erase m.dx } } :
      Machine).setR8h .eax 0 := by
    unfold int67_45
    rw [hH]
    dsimp only
    rw [if_neg (by rw [hs]; decide)]
  rw [heq]
  constructor
  · show List.kerase m.dx (emsUnmapAll m.dx [0, 1, 2, 3] m).ems.handles.entries = []
    rw [hsame.2.1, hentries, hdx]
    simp
  · exact hsame.2.2

/-- `n` cycles allocate `n` times. -/
theorem Idle.cycles : ∀ (n : Nat) {k : Nat} {m : Machine}, Idle k m → k + n < 65536 →
    ∃ es, allocations m es = n
  | 0, _, _, _, _ => ⟨[], rfl⟩
  | n + 1, k, m, h, hk => by
    have h₀ : Idle k { m with cpu := emsCpu 0 0 } := ⟨h.entries, h.next⟩
    have hroom := h₀.hasRoom rfl
    obtain ⟨hentries, hnext⟩ := h₀.given rfl
    have hdx : ({ int67_alloc { m with cpu := emsCpu 0 0 } true with
        cpu := emsCpu 0 (BitVec.ofNat 32 (k + 1)) } : Machine).dx = k + 1 := by
      show (BitVec.ofNat 32 (k + 1)).toNat % 65536 = k + 1
      rw [BitVec.toNat_ofNat]
      omega
    obtain ⟨hgone, hkept⟩ := Idle.freed (m := { int67_alloc { m with cpu := emsCpu 0 0 } true with
      cpu := emsCpu 0 (BitVec.ofNat 32 (k + 1)) }) hentries hdx rfl
    by_cases hn : n = 0
    · refine ⟨[.regs (emsCpu 0 0), .call .ah5A], ?_⟩
      simp only [allocations, allocates, EmsEvent.next, hroom, decide_true, if_true,
        Bool.false_eq_true, if_false]
      rw [hn]
    · obtain ⟨es, hes⟩ := Idle.cycles n (k := k + 1) ⟨hgone, by
        rw [hkept]
        show (int67_alloc { m with cpu := emsCpu 0 0 } true).ems.nextHandle = _
        rw [hnext]
        omega⟩ (by omega)
      refine ⟨cycle k ++ es, ?_⟩
      simp only [cycle, List.cons_append, List.nil_append, allocations, allocates, EmsEvent.next, hroom,
        decide_true, if_true, Bool.false_eq_true, if_false, Nat.zero_add]
      have hserve : (EmsCall.serve .ah45 { EmsCall.serve .ah5A { m with cpu := emsCpu 0 0 } with
          cpu := emsCpu 0 (BitVec.ofNat 32 (k + 1)) }) = int67_45 { int67_alloc
            { m with cpu := emsCpu 0 0 } true with cpu := emsCpu 0 (BitVec.ofNat 32 (k + 1)) } := rfl
      rw [hserve, hes]
      omega

/-- After 65534 cycles the next allocation gives handle FFFFh. -/
theorem emsHandles_run_out : ¬ ∀ es, SoundRun bootMachine es := by
  intro h
  obtain ⟨es, hes⟩ := Idle.cycles 65535 (k := 0) (m := bootMachine) ⟨rfl, rfl⟩ (by decide)
  have hle := (soundRun_iff emsReset_boot.ledger (by decide)).mp (h es)
  omega

end Dosiz.Ems
