/-
  Dosiz/RegionMove.lean
  =====================
  **Moving and exchanging memory regions** (AH=57 of INT 67h).

  A region is conventional memory or runs over the pages of a handle.  The host writes
  the mapped slots back, copies through its own buffers and fills the slots again from the
  pool; what a region in conventional memory has put into a mapped slot is lost by that,
  and the bound of a handle's region is tested on a sum of 32 bits.  `regionMove_iff` says
  that nothing else goes wrong, for regions that overlap each other or the page frame
  included.
-/
import Dosiz.AliasedStores
import Dosiz.EmsWindow

namespace Dosiz.Ems

open ByteMemory Machine CopyFlush AliasedStores

/-! ### The functions of the source -/

/-- The MoveRegion structure at DS:SI. -/
structure MoveRegion where
  bytes : Nat
  sType : Nat
  sHandle : Nat
  sOff : Nat
  sPg : Nat
  dType : Nat
  dHandle : Nat
  dOff : Nat
  dPg : Nat

def readMoveRegion (m : Machine) : MoveRegion :=
  let d := lin (m.segPhys .ds + m.si)
  { bytes := readd m.mem d
    sType := readb m.mem (lin (d + 0x04))
    sHandle := readw m.mem (lin (d + 0x05))
    sOff := readw m.mem (lin (d + 0x07))
    sPg := readw m.mem (lin (d + 0x09))
    dType := readb m.mem (lin (d + 0x0B))
    dHandle := readw m.mem (lin (d + 0x0C))
    dOff := readw m.mem (lin (d + 0x0E))
    dPg := readw m.mem (lin (d + 0x10)) }

/-- The body of `ems_flush_all`. -/
def flushSlot (m : Machine) (s : Nat) : Machine :=
  if m.ems.slotPool s = 0xFFFF then m
  else
    { m with ems := { m.ems with
        pool := blit m.ems.pool (m.ems.slotPool s * EMS_PAGE_SIZE) EMS_PAGE_SIZE (bytesAt m.mem (slotAddr s)) } }

/-- `ems_flush_all` -/
def emsFlushAll (m : Machine) : Machine := [0, 1, 2, 3].foldl flushSlot m

/-- The body of `ems_reload_all`. -/
def reloadSlot (m : Machine) (s : Nat) : Machine :=
  if m.ems.slotPool s = 0xFFFF then m
  else m.setMem (blit m.mem (slotAddr s) EMS_PAGE_SIZE (bytesAt m.ems.pool (m.ems.slotPool s * EMS_PAGE_SIZE)))

/-- `ems_reload_all` -/
def emsReloadAll (m : Machine) : Machine := [0, 1, 2, 3].foldl reloadSlot m

/-- `ems_pool_byte`: none for SIZE_MAX. -/
def emsPoolByte (pages : List Nat) (off : Nat) : Option Nat :=
  pages[off / EMS_PAGE_SIZE]?.map fun j => j * EMS_PAGE_SIZE + off % EMS_PAGE_SIZE

/-- A byte of guest memory or of the pool. -/
inductive Place where
  | guest (a : Nat)
  | pool (p : Nat)
deriving DecidableEq

/-- One side of the move: `s_base` or `d_base`, and the handle's pages unless the memory is conventional. -/
structure Side where
  pages : Option (List Nat)
  base : Nat

/-- Byte `i` of a side; none is an index outside `s_ems_pool`. -/
def Side.place (d : Side) (i : Nat) : Option Place :=
  match d.pages with
  | none => some (.guest (lin (d.base + i)))
  | some pages => (emsPoolByte pages (lin (d.base + i))).map .pool

/-- The side a type, a handle, a page (or segment) and an offset name. -/
def sideOf (e : Ems) (ty h pg off : Nat) : Option Side :=
  if ty ≠ 0 then (e.handles.lookup h).map fun H => ⟨some H.pages, pg * EMS_PAGE_SIZE + off⟩
  else some ⟨none, pg * 16 + off⟩

/-- The test against the size of the handle, in 32 bits. -/
def Side.tooLong (d : Side) (bytes : Nat) : Bool :=
  match d.pages with
  | none => false
  | some pages => lin (pages.length * EMS_PAGE_SIZE) < lin (d.base + bytes)

/-- One side, or the status of the refusal. -/
def resolveSide (e : Ems) (ty h pg off bytes : Nat) : Except Nat Side :=
  match sideOf e ty h pg off with
  | none => .error 0x83
  | some d => if d.tooLong bytes then .error 0x8A else .ok d

def fetch (m : Machine) : Place → UInt8
  | .guest a => m.mem a
  | .pool p => m.ems.pool p

def putByte (m : Machine) (p : Place) (b : UInt8) : Machine :=
  match p with
  | .guest a => m.setMem (Function.update m.mem a b)
  | .pool p => { m with ems := { m.ems with pool := Function.update m.ems.pool p b } }

/-- The loop that fills `bufS` or `bufD`, after `n` bytes. -/
def readSide (m : Machine) (d : Side) : Nat → Option (List UInt8)
  | 0 => some []
  | n + 1 => do
    let buf ← readSide m d n
    let p ← d.place n
    some (buf ++ [fetch m p])

/-- The loop that writes a buffer to a side, after `n` bytes. -/
def writeSide (d : Side) (buf : List UInt8) : Nat → Machine → Option Machine
  | 0, m => some m
  | n + 1, m => do
    let m ← writeSide d buf n m
    let p ← d.place n
    some (putByte m p (buf.getD n 0))

/-- The copy through the buffers. -/
def copySides (m : Machine) (exchange : Bool) (s d : Side) (n : Nat) : Option Machine := do
  let m := emsFlushAll m
  let bufS ← readSide m s n
  if exchange then
    let bufD ← readSide m d n
    let m ← writeSide s bufD n m
    let m ← writeSide d bufS n m
    some (emsReloadAll m)
  else
    let m ← writeSide d bufS n m
    some (emsReloadAll m)

/-- AH=57: move (AL=0) or exchange (AL=1) a memory region; none if the pool is indexed outside. -/
def int67_57 (m : Machine) : Option Machine :=
  if 1 < m.r8l .eax then some (m.setR8h .eax 0x84)
  else
    let r := readMoveRegion m
    if r.bytes = 0 then some (m.setR8h .eax 0)
    else
      match resolveSide m.ems r.sType r.sHandle r.sPg r.sOff r.bytes with
      | .error st => some (m.setR8h .eax st)
      | .ok s =>
        match resolveSide m.ems r.dType r.dHandle r.dPg r.dOff r.bytes with
        | .error st => some (m.setR8h .eax st)
        | .ok d => (copySides m (m.r8l .eax = 1) s d r.bytes).map fun m' => m'.setR8h .eax 0

/-! ### What a move is for -/

/-- The slot that has page `j`. -/
def holder (m : Machine) (j : Nat) : Option Nat :=
  [0, 1, 2, 3].find? fun s => m.ems.slotPool s ≠ 0xFFFF ∧ m.ems.slotPool s = j

/-- What a place contains: a page that is in a slot is what the slot shows. -/
def contents (m : Machine) : Place → UInt8
  | .guest a => m.mem a
  | .pool p =>
    match holder m (p / EMS_PAGE_SIZE) with
    | none => m.ems.pool p
    | some s => m.mem (slotAddr s + p % EMS_PAGE_SIZE)

/-- An address in a slot that has a page. -/
def InSlot (m : Machine) (a : Nat) : Prop :=
  EMS_FRAME_BASE ≤ a ∧ a < EMS_FRAME_BASE + 4 * EMS_PAGE_SIZE ∧
    m.ems.slotPool ((a - EMS_FRAME_BASE) / EMS_PAGE_SIZE) ≠ 0xFFFF

instance (m : Machine) (a : Nat) : Decidable (InSlot m a) := by unfold InSlot; infer_instance

/-- The place that an address really is: a byte of the page its slot has. -/
def window (m : Machine) : Place → Place
  | .guest a =>
    if InSlot m a then
      .pool (m.ems.slotPool ((a - EMS_FRAME_BASE) / EMS_PAGE_SIZE) * EMS_PAGE_SIZE +
        (a - EMS_FRAME_BASE) % EMS_PAGE_SIZE)
    else .guest a
  | .pool p => .pool p

/-- The contents after a move of `n` bytes from the places `s` to the places `d`: both sides are read first. -/
def moved (m : Machine) (exchange : Bool) (s d : Nat → Place) (n : Nat) : Place → UInt8 :=
  stores (fun i => window m (d i)) (fun i => contents m (s i)) n
    (if exchange then stores (fun i => window m (s i)) (fun i => contents m (d i)) n (contents m)
      else contents m)

/-- Byte `i` of a side that has one. -/
def Side.byte (d : Side) (i : Nat) : Place := (d.place i).getD (.guest 0)

/-- The first `n` bytes of the side are bytes of guest memory or of the handle's pages. -/
def Side.Inside (d : Side) (n : Nat) : Prop := ∀ i < n, d.place i = some (d.byte i)

/-- The sides that the structure names. -/
structure Named (m : Machine) (s d : Side) : Prop where
  source : sideOf m.ems (readMoveRegion m).sType (readMoveRegion m).sHandle (readMoveRegion m).sPg
    (readMoveRegion m).sOff = some s
  dest : sideOf m.ems (readMoveRegion m).dType (readMoveRegion m).dHandle (readMoveRegion m).dPg
    (readMoveRegion m).dOff = some d

/-- What AH=57 may answer: a refusal, and nothing has changed; or success, and the regions are moved. -/
inductive MoveAnswer (m m' : Machine) : Prop where
  | refused (status : m'.r8h .eax ≠ 0) (mem : m'.mem = m.mem) (ems : m'.ems = m.ems)
  | empty (none : (readMoveRegion m).bytes = 0) (status : m'.r8h .eax = 0) (mem : m'.mem = m.mem)
      (ems : m'.ems = m.ems)
  | moved (status : m'.r8h .eax = 0) (maps : m'.ems = { m.ems with pool := m'.ems.pool }) (s d : Side)
      (named : Named m s d) (reads : s.Inside (readMoveRegion m).bytes) (writes : d.Inside (readMoveRegion m).bytes)
      (effect : ∀ p, contents m' p =
        moved m (m.r8l .eax = 1) s.byte d.byte (readMoveRegion m).bytes (window m p))

/-- AH=57 has an answer, and it is a right one. -/
def MovesRight (m : Machine) : Prop := ∃ m', int67_57 m = some m' ∧ MoveAnswer m m'

/-! ### The condition -/

/-- AH=57 gets as far as the copy. -/
structure Accepted (m : Machine) (s d : Side) : Prop where
  func : m.r8l .eax ≤ 1
  some : (readMoveRegion m).bytes ≠ 0
  source : resolveSide m.ems (readMoveRegion m).sType (readMoveRegion m).sHandle (readMoveRegion m).sPg
    (readMoveRegion m).sOff (readMoveRegion m).bytes = .ok s
  dest : resolveSide m.ems (readMoveRegion m).dType (readMoveRegion m).dHandle (readMoveRegion m).dPg
    (readMoveRegion m).dOff (readMoveRegion m).bytes = .ok d

/-- The contents when the source region has been written. -/
def between (m : Machine) (exchange : Bool) (s d : Nat → Place) (n : Nat) : Place → UInt8 :=
  if exchange then stores s (fun i => contents m (d i)) n (contents m) else contents m

/-- A byte for an address in a mapped slot is in the slot's page anyway. -/
structure NoNews (m : Machine) (exchange : Bool) (s d : Nat → Place) (n : Nat) : Prop where
  dest : ∀ i < n, window m (d i) ≠ d i → contents m (s i) = between m exchange s d n (window m (d i))
  source : exchange = true → ∀ i < n, window m (s i) ≠ s i → (∀ k < n, window m (d k) ≠ window m (s i)) →
    contents m (d i) = contents m (s i)

/-- The sides are bytes of guest memory and of their handles, and no byte is lost in the page frame. -/
def MoveOk (m : Machine) : Prop :=
  ∀ s d, Accepted m s d → s.Inside (readMoveRegion m).bytes ∧ d.Inside (readMoveRegion m).bytes ∧
    NoNews m (m.r8l .eax = 1) s.byte d.byte (readMoveRegion m).bytes

/-! ### Names of bytes -/

variable {m m' : Machine}

/-- The slots have the pages they had. -/
def KeepsMap (m m' : Machine) : Prop := m'.ems = { m.ems with pool := m'.ems.pool }

theorem KeepsMap.slotPool (h : KeepsMap m m') : m'.ems.slotPool = m.ems.slotPool := by rw [h]

theorem KeepsMap.trans {m'' : Machine} (h : KeepsMap m m') (h' : KeepsMap m' m'') : KeepsMap m m'' := by
  unfold KeepsMap at *
  rw [h', h]

theorem window_same (h : KeepsMap m m') : window m' = window m := by
  funext p
  cases p with
  | guest a => simp only [window, InSlot, h.slotPool]
  | pool q => rfl

theorem window_idem (m : Machine) (p : Place) : window m (window m p) = window m p := by
  cases p with
  | pool q => rfl
  | guest a =>
    by_cases ha : InSlot m a
    · simp only [window, if_pos ha]
    · simp only [window, if_neg ha]

/-- A name of another byte is an address in a mapped slot. -/
theorem window_ne {p : Place} (h : window m p ≠ p) : ∃ a, p = .guest a ∧ InSlot m a := by
  cases p with
  | pool q => exact absurd rfl h
  | guest a =>
    by_cases ha : InSlot m a
    · exact ⟨a, rfl, ha⟩
    · exact absurd (if_neg ha) h

/-- Slot `s` has page `j`. -/
def Has (m : Machine) (s j : Nat) : Prop := m.ems.slotPool s ≠ 0xFFFF ∧ m.ems.slotPool s = j

instance (m : Machine) (s j : Nat) : Decidable (Has m s j) := by unfold Has; infer_instance

theorem Has.unique (hs : Single (mirror m)) {s t j : Nat} (hs3 : s ≤ 3) (ht3 : t ≤ 3) (h : Has m s j)
    (h' : Has m t j) : s = t := by
  refine hs s t j ?_ ?_
  · rw [mirror_loaded hs3 h.1, h.2]
  · rw [mirror_loaded ht3 h'.1, h'.2]

theorem window_inj (hs : Single (mirror m)) {a b : Nat} (ha : InSlot m a)
    (h : window m (.guest b) = window m (.guest a)) : b = a := by
  obtain ⟨ha₀, ha₁, hap⟩ := ha
  by_cases hb : InSlot m b
  · simp only [window, if_pos hb, if_pos (show InSlot m a from ⟨ha₀, ha₁, hap⟩), Place.pool.injEq] at h
    obtain ⟨hb₀, hb₁, hbp⟩ := hb
    simp only [EMS_FRAME_BASE, EMS_PAGE_SIZE] at *
    have hslot : (b - 0xE0000) / 0x4000 = (a - 0xE0000) / 0x4000 :=
      Has.unique hs (by omega) (by omega) ⟨hbp, rfl⟩ ⟨hap, by omega⟩
    omega
  · simp only [window, if_neg hb, if_pos (show InSlot m a from ⟨ha₀, ha₁, hap⟩), reduceCtorEq] at h

/-- A side gives no byte two names. -/
theorem Side.aliased (hs : Single (mirror m)) {d : Side} {n : Nat} (hd : d.Inside n) (hn : n ≤ 4294967296) :
    Aliased (window m) d.byte n := by
  have hguest : ∀ i < n, window m (d.byte i) ≠ d.byte i →
      InSlot m (lin (d.base + i)) ∧ ∀ k, d.byte k = .guest (lin (d.base + k)) := by
    intro i hi hne
    obtain ⟨a, hbyte, ha⟩ := window_ne hne
    have hplace := hd i hi
    rw [hbyte] at hplace
    unfold Side.place at hplace
    cases hp : d.pages with
    | none =>
      have hall : ∀ k, d.byte k = .guest (lin (d.base + k)) := by
        intro k
        rw [Side.byte, Side.place, hp]
        rfl
      rw [hall i] at hbyte
      cases hbyte
      exact ⟨ha, hall⟩
    | some pages =>
      rw [hp] at hplace
      obtain ⟨q, -, hq⟩ := Option.map_eq_some_iff.mp hplace
      cases hq
  constructor
  · intro i hi k hk hne
    obtain ⟨ha, hall⟩ := hguest i hi hne
    rw [hall k, hall i, window, if_pos ha]
    exact fun h => by cases h
  · intro i hi k hk hne heq
    obtain ⟨ha, hall⟩ := hguest i hi hne
    rw [hall k, hall i] at heq
    exact lin_add_inj (by omega) (by omega) (window_inj hs ha heq)

/-! ### Flush and reload -/

theorem flushSlot_pool (m : Machine) (s p : Nat) : (flushSlot m s).ems.pool p =
    if Has m s (p / EMS_PAGE_SIZE) then m.mem (slotAddr s + p % EMS_PAGE_SIZE) else m.ems.pool p := by
  rw [flushSlot]
  by_cases hs : m.ems.slotPool s = 0xFFFF
  · rw [if_pos hs, if_neg fun h : Has m s (p / EMS_PAGE_SIZE) => h.1 hs]
  · have hrange : m.ems.slotPool s * EMS_PAGE_SIZE ≤ p ∧ p < m.ems.slotPool s * EMS_PAGE_SIZE + EMS_PAGE_SIZE ↔
        m.ems.slotPool s = p / EMS_PAGE_SIZE := by
      simp only [EMS_PAGE_SIZE]
      omega
    rw [if_neg hs]
    simp only [blit, bytesAt, hrange]
    by_cases hp : m.ems.slotPool s = p / EMS_PAGE_SIZE
    · have hoff : p - m.ems.slotPool s * EMS_PAGE_SIZE = p % EMS_PAGE_SIZE := by
        simp only [EMS_PAGE_SIZE] at hp ⊢
        omega
      rw [if_pos hp, if_pos ⟨hs, hp⟩, hoff]
    · rw [if_neg hp, if_neg fun h : Has m s (p / EMS_PAGE_SIZE) => hp h.2]

theorem flushSlot_rest (m : Machine) (s : Nat) : (flushSlot m s).mem = m.mem ∧ KeepsMap m (flushSlot m s) := by
  unfold flushSlot KeepsMap
  split_ifs
  · exact ⟨rfl, rfl⟩
  · exact ⟨rfl, rfl⟩

theorem flush_rest : ∀ (ss : List Nat) (m : Machine), (ss.foldl flushSlot m).mem = m.mem ∧
    KeepsMap m (ss.foldl flushSlot m)
  | [], _ => ⟨rfl, rfl⟩
  | s :: ss, m => by
    obtain ⟨hmem, hmap⟩ := flushSlot_rest m s
    obtain ⟨hmem', hmap'⟩ := flush_rest ss (flushSlot m s)
    exact ⟨hmem'.trans hmem, hmap.trans hmap'⟩

/-- A page that no slot of the list has is not written. -/
theorem flush_pool_of_not {p : Nat} : ∀ {ss : List Nat} {m : Machine}, (∀ s ∈ ss, ¬ Has m s (p / EMS_PAGE_SIZE)) →
    (ss.foldl flushSlot m).ems.pool p = m.ems.pool p
  | [], _, _ => rfl
  | s :: ss, m, h => by
    rw [List.foldl_cons, flush_pool_of_not fun t ht => ?_, flushSlot_pool, if_neg (h s List.mem_cons_self)]
    rw [Has, (flushSlot_rest m s).2.slotPool]
    exact h t (List.mem_cons_of_mem s ht)

/-- A page that one slot of the list has is written from there. -/
theorem flush_pool_of_has {p t : Nat} {ss : List Nat} : ∀ {m : Machine}, t ∈ ss → Has m t (p / EMS_PAGE_SIZE) →
    (∀ s ∈ ss, Has m s (p / EMS_PAGE_SIZE) → s = t) →
      (ss.foldl flushSlot m).ems.pool p = m.mem (slotAddr t + p % EMS_PAGE_SIZE) := by
  induction ss with
  | nil =>
    intro m hin
    cases hin
  | cons s ss ih =>
    intro m hin ht hone
    have hkeep : ∀ u, Has (flushSlot m s) u (p / EMS_PAGE_SIZE) ↔ Has m u (p / EMS_PAGE_SIZE) := fun u => by
      rw [Has, Has, (flushSlot_rest m s).2.slotPool]
    rw [List.foldl_cons]
    by_cases hrest : t ∈ ss
    · rw [ih hrest ((hkeep t).mpr ht) fun u hu hhas => hone u (List.mem_cons_of_mem s hu) ((hkeep u).mp hhas),
        (flushSlot_rest m s).1]
    · obtain rfl := (List.mem_cons.mp hin).resolve_right hrest
      have hno : ∀ u ∈ ss, ¬ Has (flushSlot m t) u (p / EMS_PAGE_SIZE) := by
        intro u hu hhas
        exact hrest (hone u (List.mem_cons_of_mem t hu) ((hkeep u).mp hhas) ▸ hu)
      rw [flush_pool_of_not hno, flushSlot_pool, if_pos ht]

theorem mem_four {s : Nat} (h : s ≤ 3) : s ∈ [0, 1, 2, 3] := by
  simp only [List.mem_cons, List.not_mem_nil, or_false]
  omega

theorem holder_some {s j : Nat} (h : holder m j = some s) : s ≤ 3 ∧ Has m s j := by
  have hmem := List.mem_of_find?_eq_some h
  have hhas := List.find?_some h
  simp only [List.mem_cons, List.not_mem_nil, or_false] at hmem
  exact ⟨by omega, by simpa [Has] using hhas⟩

theorem holder_none {s j : Nat} (h : holder m j = none) (hs : s ∈ [0, 1, 2, 3]) : ¬ Has m s j := by
  have hno := List.find?_eq_none.mp h s hs
  simpa [Has] using hno

/-- Once the slots are written back, the pool and guest memory are what the places contain. -/
theorem fetch_flush (hs : Single (mirror m)) : fetch (emsFlushAll m) = contents m := by
  funext p
  cases p with
  | guest a => exact congrFun (flush_rest [0, 1, 2, 3] m).1 a
  | pool q =>
    have hle : ∀ t ∈ [0, 1, 2, 3], t ≤ 3 := by decide
    rw [contents]
    cases hh : holder m (q / EMS_PAGE_SIZE) with
    | none => exact flush_pool_of_not fun t ht => holder_none hh ht
    | some t =>
      obtain ⟨ht3, ht⟩ := holder_some hh
      have hin : t ∈ [0, 1, 2, 3] := List.mem_of_find?_eq_some hh
      exact flush_pool_of_has hin ht fun u hu hhas => Has.unique hs (hle u hu) ht3 hhas ht

theorem reloadSlot_mem (m : Machine) (s a : Nat) : (reloadSlot m s).mem a =
    if m.ems.slotPool s ≠ 0xFFFF ∧ slotAddr s ≤ a ∧ a < slotAddr s + EMS_PAGE_SIZE then
      m.ems.pool (m.ems.slotPool s * EMS_PAGE_SIZE + (a - slotAddr s))
    else m.mem a := by
  unfold reloadSlot
  by_cases hs : m.ems.slotPool s = 0xFFFF
  · rw [if_pos hs, if_neg fun h => h.1 hs]
  · rw [if_neg hs]
    simp only [setMem, blit, bytesAt, ne_eq, hs, not_false_eq_true, true_and]

theorem reloadSlot_ems (m : Machine) (s : Nat) : (reloadSlot m s).ems = m.ems := by
  unfold reloadSlot
  split_ifs
  · rfl
  · rfl

theorem reload_ems : ∀ (ss : List Nat) (m : Machine), (ss.foldl reloadSlot m).ems = m.ems
  | [], _ => rfl
  | s :: ss, m => (reload_ems ss (reloadSlot m s)).trans (reloadSlot_ems m s)

/-- After the reload an address shows the byte it names. -/
theorem reload_mem (a : Nat) : ∀ {ss : List Nat} {m : Machine}, ss.Nodup → (∀ s ∈ ss, s ≤ 3) →
    (ss.foldl reloadSlot m).mem a =
      if InSlot m a ∧ (a - EMS_FRAME_BASE) / EMS_PAGE_SIZE ∈ ss then fetch m (window m (.guest a)) else m.mem a
  | [], _, _, _ => (if_neg fun h => List.not_mem_nil h.2).symm
  | s :: ss, m, hnd, hle => by
    obtain ⟨hsn, hnds⟩ := List.nodup_cons.mp hnd
    have hin : InSlot (reloadSlot m s) a ↔ InSlot m a := by rw [InSlot, InSlot, reloadSlot_ems]
    have hs3 := hle s List.mem_cons_self
    have hhere : m.ems.slotPool s ≠ 0xFFFF ∧ slotAddr s ≤ a ∧ a < slotAddr s + EMS_PAGE_SIZE ↔
        InSlot m a ∧ (a - EMS_FRAME_BASE) / EMS_PAGE_SIZE = s := by
      simp only [InSlot, slotAddr, EMS_FRAME_BASE, EMS_PAGE_SIZE]
      constructor
      · rintro ⟨hp, h₁, h₂⟩
        have hslot : (a - 0xE0000) / 0x4000 = s := by omega
        exact ⟨⟨by omega, by omega, by rwa [hslot]⟩, hslot⟩
      · rintro ⟨⟨h₁, h₂, hp⟩, rfl⟩
        exact ⟨hp, by omega, by omega⟩
    rw [List.foldl_cons, reload_mem a hnds fun t ht => hle t (List.mem_cons_of_mem s ht)]
    simp only [hin]
    by_cases hslot : InSlot m a ∧ (a - EMS_FRAME_BASE) / EMS_PAGE_SIZE = s
    · obtain ⟨ha, hs⟩ := hslot
      have hoff : a - slotAddr s = (a - EMS_FRAME_BASE) % EMS_PAGE_SIZE := by
        simp only [slotAddr, EMS_FRAME_BASE, EMS_PAGE_SIZE] at hs ⊢
        omega
      rw [if_neg fun h => hsn (hs ▸ h.2), if_pos ⟨ha, hs ▸ List.mem_cons_self⟩, reloadSlot_mem,
        if_pos (hhere.mpr ⟨ha, hs⟩), window, if_pos ha, hs, hoff]
      rfl
    · rw [reloadSlot_mem, if_neg fun h => hslot (hhere.mp h)]
      by_cases ha : InSlot m a ∧ (a - EMS_FRAME_BASE) / EMS_PAGE_SIZE ∈ ss
      · have hsame : KeepsMap m (reloadSlot m s) := by rw [KeepsMap, reloadSlot_ems]
        rw [if_pos ha, if_pos ⟨ha.1, List.mem_cons_of_mem s ha.2⟩, window_same hsame, window, if_pos ha.1, fetch,
          fetch, reloadSlot_ems]
      · rw [if_neg ha, if_neg fun h => ?_]
        rcases List.mem_cons.mp h.2 with hs | hin'
        · exact hslot ⟨h.1, hs⟩
        · exact ha ⟨h.1, hin'⟩

/-- What the places contain after the reload. -/
theorem contents_reload (m : Machine) (p : Place) : contents (emsReloadAll m) p = fetch m (window m p) := by
  have hguest : ∀ a, (emsReloadAll m).mem a = fetch m (window m (.guest a)) := by
    intro a
    rw [emsReloadAll, reload_mem a (by decide) (by decide)]
    by_cases ha : InSlot m a
    · refine if_pos ⟨ha, ?_⟩
      obtain ⟨h₀, h₁, -⟩ := ha
      refine mem_four ?_
      simp only [EMS_FRAME_BASE, EMS_PAGE_SIZE] at h₀ h₁ ⊢
      omega
    · rw [if_neg fun h => ha h.1, window, if_neg ha]
      rfl
  have hems : (emsReloadAll m).ems = m.ems := reload_ems [0, 1, 2, 3] m
  cases p with
  | guest a => exact hguest a
  | pool q =>
    have hholder : holder (emsReloadAll m) (q / EMS_PAGE_SIZE) = holder m (q / EMS_PAGE_SIZE) := by
      rw [holder, holder, hems]
    rw [contents, hholder]
    cases hh : holder m (q / EMS_PAGE_SIZE) with
    | none =>
      show (emsReloadAll m).ems.pool q = _
      rw [hems]
      rfl
    | some s =>
      obtain ⟨hs3, hp, hj⟩ := holder_some hh
      have hslot : (slotAddr s + q % EMS_PAGE_SIZE - EMS_FRAME_BASE) / EMS_PAGE_SIZE = s := by
        simp only [slotAddr, EMS_FRAME_BASE, EMS_PAGE_SIZE]
        omega
      have hin : InSlot m (slotAddr s + q % EMS_PAGE_SIZE) := by
        refine ⟨?_, ?_, by rwa [hslot]⟩
        · simp only [slotAddr, EMS_FRAME_BASE, EMS_PAGE_SIZE]
          omega
        · simp only [slotAddr, EMS_FRAME_BASE, EMS_PAGE_SIZE]
          omega
      have hbyte : q / EMS_PAGE_SIZE * EMS_PAGE_SIZE + (slotAddr s + q % EMS_PAGE_SIZE - EMS_FRAME_BASE) %
          EMS_PAGE_SIZE = q := by
        simp only [slotAddr, EMS_FRAME_BASE, EMS_PAGE_SIZE]
        omega
      show (emsReloadAll m).mem _ = _
      rw [hguest, window, if_pos hin, hslot, hj, hbyte]
      rfl

/-- A name and the byte it names contain the same. -/
theorem contents_window (hs : Single (mirror m)) (p : Place) : contents m (window m p) = contents m p := by
  cases p with
  | pool q => rfl
  | guest a =>
    by_cases ha : InSlot m a
    · rw [window, if_pos ha]
      obtain ⟨h₀, h₁, hp⟩ := ha
      have hpage : (m.ems.slotPool ((a - EMS_FRAME_BASE) / EMS_PAGE_SIZE) * EMS_PAGE_SIZE +
          (a - EMS_FRAME_BASE) % EMS_PAGE_SIZE) / EMS_PAGE_SIZE =
            m.ems.slotPool ((a - EMS_FRAME_BASE) / EMS_PAGE_SIZE) := by
        simp only [EMS_PAGE_SIZE]
        omega
      have hslot3 : (a - EMS_FRAME_BASE) / EMS_PAGE_SIZE ≤ 3 := by
        simp only [EMS_FRAME_BASE, EMS_PAGE_SIZE] at h₀ h₁ ⊢
        omega
      simp only [contents, hpage]
      cases hh : holder m (m.ems.slotPool ((a - EMS_FRAME_BASE) / EMS_PAGE_SIZE)) with
      | none =>
        exact absurd ⟨hp, rfl⟩ (holder_none hh (mem_four hslot3))
      | some s =>
        obtain ⟨hs3, hhas⟩ := holder_some hh
        have heq : s = (a - EMS_FRAME_BASE) / EMS_PAGE_SIZE := Has.unique hs hs3 hslot3 hhas ⟨hp, rfl⟩
        have haddr : slotAddr s + (m.ems.slotPool ((a - EMS_FRAME_BASE) / EMS_PAGE_SIZE) * EMS_PAGE_SIZE +
            (a - EMS_FRAME_BASE) % EMS_PAGE_SIZE) % EMS_PAGE_SIZE = a := by
          rw [heq]
          simp only [slotAddr, EMS_FRAME_BASE, EMS_PAGE_SIZE] at h₀ ⊢
          omega
        exact congrArg m.mem haddr
    · rw [window, if_neg ha]

/-! ### The loops -/

theorem fetch_putByte (m : Machine) (p : Place) (b : UInt8) :
    fetch (putByte m p b) = Function.update (fetch m) p b := by
  funext q
  by_cases hq : q = p
  · subst hq
    rw [Function.update_self]
    cases q with
    | guest a => exact Function.update_self a b m.mem
    | pool a => exact Function.update_self a b m.ems.pool
  · rw [Function.update_of_ne hq]
    cases p with
    | guest a =>
      cases q with
      | guest c => exact Function.update_of_ne (fun h => hq (congrArg Place.guest h)) b m.mem
      | pool c => rfl
    | pool a =>
      cases q with
      | guest c => rfl
      | pool c => exact Function.update_of_ne (fun h => hq (congrArg Place.pool h)) b m.ems.pool

theorem keepsMap_putByte (m : Machine) (p : Place) (b : UInt8) : KeepsMap m (putByte m p b) := by
  cases p with
  | guest a => rfl
  | pool q => rfl

variable {s d : Side} {n : Nat}

theorem readSide_eq (m : Machine) : ∀ {n : Nat}, d.Inside n →
    readSide m d n = some ((List.range n).map fun i => fetch m (d.byte i))
  | 0, _ => rfl
  | n + 1, h => by
    rw [readSide, readSide_eq m fun i hi => h i (Nat.lt_succ_of_lt hi), h n (Nat.lt_succ_self n), List.range_succ,
      List.map_append]
    rfl

theorem writeSide_eq (buf : List UInt8) : ∀ {n : Nat}, d.Inside n → ∃ m', writeSide d buf n m = some m' ∧
    fetch m' = stores d.byte (fun i => buf.getD i 0) n (fetch m) ∧ KeepsMap m m'
  | 0, _ => ⟨m, rfl, rfl, rfl⟩
  | n + 1, h => by
    obtain ⟨m₁, hwrite, hfetch, hmap⟩ := writeSide_eq buf (fun i hi => h i (Nat.lt_succ_of_lt hi))
    refine ⟨putByte m₁ (d.byte n) (buf.getD n 0), ?_, ?_, hmap.trans (keepsMap_putByte _ _ _)⟩
    · rw [writeSide, hwrite, h n (Nat.lt_succ_self n)]
      rfl
    · rw [fetch_putByte, hfetch]
      rfl

/-- A byte outside the handle stops both loops. -/
theorem inside_of_readSide : ∀ {n : Nat} {buf : List UInt8}, readSide m d n = some buf → d.Inside n
  | 0, _, _ => fun _ hi => absurd hi (Nat.not_lt_zero _)
  | n + 1, buf, h => by
    obtain ⟨buf', hread, h⟩ := Option.bind_eq_some_iff.mp h
    obtain ⟨p, hp, -⟩ := Option.bind_eq_some_iff.mp h
    intro i hi
    rcases Nat.lt_succ_iff_lt_or_eq.mp hi with hlt | rfl
    · exact inside_of_readSide hread i hlt
    · rw [Side.byte, hp]
      rfl

theorem inside_of_writeSide {buf : List UInt8} : ∀ {n : Nat} {m' : Machine}, writeSide d buf n m = some m' → d.Inside n
  | 0, _, _ => fun _ hi => absurd hi (Nat.not_lt_zero _)
  | n + 1, m', h => by
    obtain ⟨m₁, hwrite, h⟩ := Option.bind_eq_some_iff.mp h
    obtain ⟨p, hp, -⟩ := Option.bind_eq_some_iff.mp h
    intro i hi
    rcases Nat.lt_succ_iff_lt_or_eq.mp hi with hlt | rfl
    · exact inside_of_writeSide hwrite i hlt
    · rw [Side.byte, hp]
      rfl

/-- The buffer gives each byte back. -/
theorem buffer_getD (h : Nat → UInt8) {i : Nat} (hi : i < n) : ((List.range n).map h).getD i 0 = h i := by
  rw [List.getD_eq_getElem?_getD, List.getElem?_map, List.getElem?_range hi]
  rfl

/-- The copy, on sides that are inside. -/
theorem copySides_eq (hs : Single (mirror m)) (exchange : Bool) (hsin : s.Inside n) (hdin : d.Inside n) :
    ∃ m', copySides m exchange s d n = some (emsReloadAll m') ∧ KeepsMap m m' ∧
      fetch m' = stores d.byte (fun i => contents m (s.byte i)) n (between m exchange s.byte d.byte n) := by
  have hflush := fetch_flush hs
  have hmap := (flush_rest [0, 1, 2, 3] m).2
  have hbuf : ∀ c : Side, ∀ i < n,
      ((List.range n).map fun i => contents m (c.byte i)).getD i 0 = contents m (c.byte i) :=
    fun c i hi => buffer_getD _ hi
  unfold copySides between
  simp only [readSide_eq (emsFlushAll m) hsin, readSide_eq (emsFlushAll m) hdin, hflush, Option.bind_eq_bind,
    Option.bind_some]
  cases exchange with
  | false =>
    obtain ⟨m₁, hw, hf, hk⟩ := writeSide_eq (m := emsFlushAll m)
      ((List.range n).map fun i => contents m (s.byte i)) hdin
    refine ⟨m₁, by rw [if_neg Bool.noConfusion, hw]; rfl, hmap.trans hk, ?_⟩
    rw [hf, hflush, if_neg Bool.noConfusion]
    exact stores_vals (hbuf s)
  | true =>
    obtain ⟨m₁, hw₁, hf₁, hk₁⟩ := writeSide_eq (m := emsFlushAll m)
      ((List.range n).map fun i => contents m (d.byte i)) hsin
    obtain ⟨m₂, hw₂, hf₂, hk₂⟩ := writeSide_eq (m := m₁)
      ((List.range n).map fun i => contents m (s.byte i)) hdin
    refine ⟨m₂, by rw [if_pos rfl, hw₁, Option.bind_some, hw₂]; rfl, (hmap.trans hk₁).trans hk₂, ?_⟩
    rw [hf₂, hf₁, if_pos rfl, hflush, stores_vals (hbuf d)]
    exact stores_vals (hbuf s)

/-- A copy that comes to an end has stayed inside. -/
theorem inside_of_copySides {exchange : Bool} {m' : Machine} (h : copySides m exchange s d n = some m') :
    s.Inside n ∧ d.Inside n := by
  obtain ⟨bufS, hs, h⟩ := Option.bind_eq_some_iff.mp h
  refine ⟨inside_of_readSide hs, ?_⟩
  cases exchange with
  | false =>
    obtain ⟨m₁, hw, -⟩ := Option.bind_eq_some_iff.mp h
    exact inside_of_writeSide hw
  | true =>
    obtain ⟨bufD, hd, -⟩ := Option.bind_eq_some_iff.mp h
    exact inside_of_readSide hd

/-! ### The move -/

/-- The copy is the move exactly if it is idle in the page frame. -/
theorem moved_iff (hs : Single (mirror m)) {exchange : Bool} (hsin : s.Inside n) (hdin : d.Inside n)
    (hn : n ≤ 4294967296) (hmap : KeepsMap m m')
    (hfetch : fetch m' = stores d.byte (fun i => contents m (s.byte i)) n (between m exchange s.byte d.byte n)) :
    (∀ p, contents (emsReloadAll m') p = moved m exchange s.byte d.byte n (window m p)) ↔
      NoNews m exchange s.byte d.byte n := by
  have hreal : (∀ p, contents (emsReloadAll m') p = moved m exchange s.byte d.byte n (window m p)) ↔
      ∀ p ∈ {p | window m p = p}, fetch m' p = moved m exchange s.byte d.byte n p := by
    simp only [contents_reload, window_same hmap]
    constructor
    · intro h p hp
      have hp' := h p
      rwa [show window m p = p from hp] at hp'
    · intro h p
      exact h _ (window_idem m p)
  rw [hreal, hfetch]
  unfold moved
  rw [stores_through_iff (L := {p | window m p = p}) (fun p hp => hp) (Side.aliased hs hdin hn)]
  have hsource : (∀ p ∈ {p | window m p = p}, (∀ i < n, window m (d.byte i) ≠ p) →
      between m exchange s.byte d.byte n p =
        (if exchange = true then stores (fun i => window m (s.byte i)) (fun i => contents m (d.byte i)) n (contents m)
          else contents m) p) ↔
      (exchange = true → ∀ i < n, window m (s.byte i) ≠ s.byte i →
        (∀ k < n, window m (d.byte k) ≠ window m (s.byte i)) →
          contents m (d.byte i) = contents m (s.byte i)) := by
    cases exchange with
    | false => exact ⟨fun _ h => absurd h Bool.noConfusion, fun _ p _ _ => rfl⟩
    | true =>
      -- the places that the destination leaves alone
      have hthrough : (∀ p ∈ {p | window m p = p ∧ ∀ i < n, window m (d.byte i) ≠ p},
          stores s.byte (fun i => contents m (d.byte i)) n (contents m) p =
            stores (fun i => window m (s.byte i)) (fun i => contents m (d.byte i)) n (contents m) p) ↔ _ :=
        stores_through_iff (fun p hp => hp.1) (Side.aliased hs hsin hn)
      constructor
      · intro h _ i hi hne hapart
        rw [← contents_window hs (s.byte i)]
        exact (hthrough.mp fun p hp => h p hp.1 hp.2).1 i hi hne ⟨window_idem m _, hapart⟩
      · intro h p hp hapart
        refine hthrough.mpr ⟨fun i hi hne hin => ?_, fun _ _ _ => rfl⟩ p ⟨hp, hapart⟩
        rw [contents_window hs]
        exact h rfl i hi hne hin.2
  rw [hsource]
  exact ⟨fun h => ⟨fun i hi hne => h.1 i hi hne (window_idem m _), h.2⟩,
    fun h => ⟨fun i hi hne _ => h.dest i hi hne, h.source⟩⟩

theorem resolveSide_ok {e : Ems} {ty h pg off bytes : Nat} {c : Side}
    (hr : resolveSide e ty h pg off bytes = .ok c) : sideOf e ty h pg off = some c := by
  unfold resolveSide at hr
  cases hside : sideOf e ty h pg off with
  | none =>
    rw [hside] at hr
    cases hr
  | some c' =>
    rw [hside] at hr
    dsimp only at hr
    split_ifs at hr
    cases hr
    rfl

theorem resolveSide_error {e : Ems} {ty h pg off bytes st : Nat} (hr : resolveSide e ty h pg off bytes = .error st) :
    st % 256 ≠ 0 := by
  unfold resolveSide at hr
  cases hside : sideOf e ty h pg off with
  | none =>
    rw [hside] at hr
    cases hr
    decide
  | some c' =>
    rw [hside] at hr
    dsimp only at hr
    split_ifs at hr
    cases hr
    decide

/-- A refusal changes AH only. -/
theorem refused_answer (m : Machine) {st : Nat} (hst : st % 256 ≠ 0) : MoveAnswer m (m.setR8h .eax st) :=
  .refused (by rwa [r8h_setR8h]) rfl rfl

/-- **Moving and exchanging regions.**  Where no page is open in two slots, AH=57 refuses and changes nothing, or
    does what reading both regions and then writing them would do, whatever the regions overlap, exactly
    if the regions it accepts run over no end of a handle and no byte that it puts into a mapped slot
    of the page frame is news to the slot's page. -/
theorem regionMove_iff (m : Machine) (hs : Single (mirror m)) : MovesRight m ↔ MoveOk m := by
  have hbytes : (readMoveRegion m).bytes ≤ 4294967296 := Nat.le_of_lt (readd_lt m.mem _)
  unfold MovesRight int67_57
  dsimp only
  by_cases hal : 1 < m.r8l .eax
  · rw [if_pos hal]
    exact ⟨fun _ s d ha => absurd ha.func (by omega), fun _ => ⟨_, rfl, refused_answer m (by decide)⟩⟩
  rw [if_neg hal]
  by_cases hn : (readMoveRegion m).bytes = 0
  · rw [if_pos hn]
    exact ⟨fun _ s d ha => absurd hn ha.some, fun _ => ⟨_, rfl, .empty hn (r8h_setR8h _ _ _) rfl rfl⟩⟩
  rw [if_neg hn]
  cases hsrc : resolveSide m.ems (readMoveRegion m).sType (readMoveRegion m).sHandle (readMoveRegion m).sPg
      (readMoveRegion m).sOff (readMoveRegion m).bytes with
  | error st =>
    refine ⟨fun _ s d ha => ?_, fun _ => ⟨_, rfl, refused_answer m (resolveSide_error hsrc)⟩⟩
    have hok := ha.source
    rw [hsrc] at hok
    cases hok
  | ok s =>
    cases hdst : resolveSide m.ems (readMoveRegion m).dType (readMoveRegion m).dHandle (readMoveRegion m).dPg
        (readMoveRegion m).dOff (readMoveRegion m).bytes with
    | error st =>
      refine ⟨fun _ s d ha => ?_, fun _ => ⟨_, rfl, refused_answer m (resolveSide_error hdst)⟩⟩
      have hok := ha.dest
      rw [hdst] at hok
      cases hok
    | ok d =>
      dsimp only
      constructor
      · rintro ⟨m', hm', hanswer⟩ s' d' ha
        obtain ⟨r, hr, rfl⟩ := Option.map_eq_some_iff.mp hm'
        obtain rfl : s = s' := Except.ok.inj (hsrc.symm.trans ha.source)
        obtain rfl : d = d' := Except.ok.inj (hdst.symm.trans ha.dest)
        obtain ⟨hsin, hdin⟩ := inside_of_copySides hr
        refine ⟨hsin, hdin, ?_⟩
        obtain ⟨m₂, hm₂, hmap, hfetch⟩ := copySides_eq hs (decide (m.r8l .eax = 1)) hsin hdin
        rw [hm₂] at hr
        cases hr
        refine (moved_iff hs hsin hdin hbytes hmap hfetch).mp ?_
        cases hanswer with
        | refused status => exact absurd (r8h_setR8h _ _ _) status
        | empty none => exact absurd none hn
        | moved status maps s' d' named reads writes effect =>
          obtain rfl : s = s' := Option.some.inj ((resolveSide_ok hsrc).symm.trans named.source)
          obtain rfl : d = d' := Option.some.inj ((resolveSide_ok hdst).symm.trans named.dest)
          exact effect
      · intro hok
        obtain ⟨hsin, hdin, hnews⟩ := hok s d ⟨by omega, hn, hsrc, hdst⟩
        obtain ⟨m₂, hm₂, hmap, hfetch⟩ := copySides_eq hs (decide (m.r8l .eax = 1)) hsin hdin
        refine ⟨(emsReloadAll m₂).setR8h .eax 0, by rw [hm₂]; rfl, .moved (r8h_setR8h _ _ _) ?_ s d
          ⟨resolveSide_ok hsrc, resolveSide_ok hdst⟩ hsin hdin ((moved_iff hs hsin hdin hbytes hmap hfetch).mpr hnews)⟩
        show (emsReloadAll m₂).ems = { m.ems with pool := (emsReloadAll m₂).ems.pool }
        rw [emsReloadAll, reload_ems]
        exact hmap

/-! ### Two moves -/

/-- The bytes of a structure for conventional memory on both sides. -/
def moveStruct (bytes sOff sSeg dOff dSeg : Nat) : List Nat :=
  [bytes, 0, 0, 0, 0, 0, 0, sOff % 256, sOff / 256, sSeg % 256, sSeg / 256, 0, 0, 0, dOff % 256, dOff / 256,
    dSeg % 256, dSeg / 256]

/-- `m` with a structure at 0:0, where DS:SI points. -/
def moving (m : Machine) (bs : List Nat) : Machine := m.setMem (storeBytes m.mem 0 bs)

/-- Type 0 is conventional memory. -/
theorem sideOf_conventional {e : Ems} {ty h pg off : Nat} {c : Side} (hty : ty = 0)
    (hc : sideOf e ty h pg off = some c) : c = ⟨none, pg * 16 + off⟩ := by
  rw [sideOf, if_neg (not_not.mpr hty)] at hc
  exact (Option.some.inj hc).symm

theorem inside_conventional (base n : Nat) : (Side.mk none base).Inside n := fun _ _ => rfl

theorem single_same (h : m'.ems = m.ems) (hs : Single (mirror m)) : Single (mirror m') := by
  intro a b j
  simp only [mirror, h]
  exact hs a b j

theorem moving_ems (m : Machine) (bs : List Nat) : (moving m bs).ems = m.ems := rfl

/-- Page 0 of handle 1 is mapped into slot 0, its first byte is AA, and the page's first four bytes are to go
    to 200:0. -/
def fetchMove : Machine :=
  moving (machineAfter mappedEvents) [4, 0, 0, 0, 1, 1, 0, 0, 0, 0, 0, 0, 0, 0, 0, 0, 0, 2]

theorem sideOf_handle {e : Ems} {ty h pg off : Nat} {c : Side} (hty : ty ≠ 0) (hc : sideOf e ty h pg off = some c) :
    ∃ H, e.handles.lookup h = some H ∧ c = ⟨some H.pages, pg * EMS_PAGE_SIZE + off⟩ := by
  rw [sideOf, if_pos hty] at hc
  obtain ⟨H, hH, hside⟩ := Option.map_eq_some_iff.mp hc
  exact ⟨H, hH, hside.symm⟩

/-- Below the page frame an address is what it says. -/
theorem window_low (m : Machine) {a : Nat} (ha : a < EMS_FRAME_BASE) : window m (.guest a) = .guest a :=
  if_neg fun h => absurd h.1 (Nat.not_le_of_lt ha)

/-- They are read from the slot, and arrive. -/
theorem regionMove_iff_fetch : MovesRight fetchMove := by
  have htracks := run_tracks run_mapped (tracks_reset rfl (by decide) fun _ => rfl)
  refine (regionMove_iff fetchMove (single_same (moving_ems _ _) htracks.single)).mpr fun s d ha => ?_
  have hn : (readMoveRegion fetchMove).bytes = 4 := by decide +kernel
  have hfrom : (readMoveRegion fetchMove).sPg * EMS_PAGE_SIZE + (readMoveRegion fetchMove).sOff = 0 := by
    decide +kernel
  have hto : (readMoveRegion fetchMove).dPg * 16 + (readMoveRegion fetchMove).dOff = 0x2000 := by decide +kernel
  have hpages : (fetchMove.ems.handles.lookup (readMoveRegion fetchMove).sHandle).map EmsHandle.pages = some [0] := by
    decide +kernel
  obtain ⟨H, hH, rfl⟩ := sideOf_handle (by decide +kernel) (resolveSide_ok ha.source)
  obtain rfl := sideOf_conventional (by decide +kernel) (resolveSide_ok ha.dest)
  rw [hH, Option.map_some, Option.some.injEq] at hpages
  rw [hn, hfrom, hto, hpages]
  refine ⟨?_, inside_conventional _ _, ⟨fun i hi hne => absurd ?_ hne, fun hexchange => ?_⟩⟩
  · intro i hi
    have hi : i = 0 ∨ i = 1 ∨ i = 2 ∨ i = 3 := by omega
    rcases hi with rfl | rfl | rfl | rfl <;> rfl
  · refine window_low _ ?_
    show lin (0x2000 + i) < EMS_FRAME_BASE
    rw [lin_of_lt (by omega)]
    simp only [EMS_FRAME_BASE]
    omega
  · exact absurd (of_decide_eq_true hexchange) (by decide +kernel)

/-- Page 0 of handle 1 is mapped into slot 0, its first byte is AA, and a byte 1 is to go from 0:0 to E000:0. -/
def lostMove : Machine := moving (machineAfter mappedEvents) (moveStruct 1 0 0 0 0xE000)

/-- AH=57 answers 0, and the byte has not arrived. -/
theorem regionMove_lost : Single (mirror lostMove) ∧ ¬ MovesRight lostMove := by
  have htracks := run_tracks run_mapped (tracks_reset rfl (by decide) fun _ => rfl)
  refine ⟨single_same (moving_ems _ _) htracks.single, ?_⟩
  rintro ⟨m', hm', hanswer⟩
  have hrun : (int67_57 lostMove).map (fun m' => (m'.r8h .eax, m'.mem 0xE0000)) = some (0, 0xAA) := by
    decide +kernel
  have hn : (readMoveRegion lostMove).bytes = 1 := by decide +kernel
  rw [hm', Option.map_some, Option.some.injEq, Prod.mk.injEq] at hrun
  cases hanswer with
  | refused status => exact status hrun.1
  | empty none => exact absurd (hn.symm.trans none) (by decide)
  | moved status maps s d named reads writes effect =>
    have hsource : (readMoveRegion lostMove).sPg * 16 + (readMoveRegion lostMove).sOff = 0 := by decide +kernel
    have hdest : (readMoveRegion lostMove).dPg * 16 + (readMoveRegion lostMove).dOff = 0xE0000 := by decide +kernel
    have hs : s.byte 0 = .guest 0 := by
      rw [sideOf_conventional (by decide +kernel) named.source, hsource]
      rfl
    have hd : d.byte 0 = .guest 0xE0000 := by
      rw [sideOf_conventional (by decide +kernel) named.dest, hdest]
      rfl
    have harrives : contents m' (.guest 0xE0000) = contents lostMove (s.byte 0) := by
      rw [effect, hn]
      refine stores_at (Nat.zero_lt_one) (by rw [hd]) fun k hk _ => Nat.lt_one_iff.mp hk
    have hbyte : lostMove.mem 0 = 1 := by decide +kernel
    rw [hs] at harrives
    exact absurd ((hrun.2.symm.trans harrives).trans hbyte) (by decide)

end Dosiz.Ems
