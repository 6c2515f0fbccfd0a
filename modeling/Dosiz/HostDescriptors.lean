/-
  Dosiz/HostDescriptors.lean
  ==========================
  **The host's own GDT entries** (INT 31h AX=0007, 0008, 0009, 000C of `bridge.cc`).

  The editing services take any selector `selector_is_valid` accepts, the sixteen of the
  GDT among them; AX=0001 and AX=0101 accept LDT selectors only.  A call leaves the
  entries of the host (callback code, LDT, shim code, stacks, TSS) as they are unless its
  selector names one of them, and then exactly where it writes what is there.
-/
import Mathlib.Tactic.IntervalCases
import Dosiz.LdtSlots

namespace Dosiz

open ByteMemory Machine Mcb

variable {eng : Engine} {m r : Machine} {cf : Bool}

/-- The descriptor services that change a descriptor or free one. -/
inductive DescCall where
  | ax0001 | ax0007 | ax0008 | ax0009 | ax000C | ax0101
deriving DecidableEq, Repr

def DescCall.serve (eng : Engine) : DescCall → Machine → Reply
  | .ax0001 => int31_0001
  | .ax0007 => int31_0007 eng
  | .ax0008 => int31_0008 eng
  | .ax0009 => int31_0009 eng
  | .ax000C => int31_000C eng
  | .ax0101 => int31_0101

/-- The GDT entries of the host. -/
def hostSlots : List Nat := [5, 6, 7, 8, 9, 14, 15]

/-- The eight bytes of the descriptor at `p` are the same. -/
def SameDesc (mem mem' : Mem) (p : Nat) : Prop := ∀ k < 8, readb mem' (p + k) = readb mem (p + k)

def HostEntriesKept (m r : Machine) : Prop := ∀ i ∈ hostSlots, SameDesc m.mem r.mem (GDT_BASE + i * 8)

/-- The selector names a GDT entry of the host. -/
def NamesHostSlot (sel : Nat) : Prop := sel / 4 % 2 ≠ 1 ∧ sel / 8 ∈ hostSlots

/-- The flags byte AX=0008 writes: D and one more bit stay, the limit's top and G are set. -/
def limitFlags (flags limit : Nat) (needG : Bool) : Nat :=
  flags / 32 % 4 * 32 + limit / 65536 % 16 + if needG then 0x80 else 0

/-- The limit AX=0008 writes. -/
def limitField (limit : Nat) : Nat := if 0xFFFFF < limit then limit / 4096 else limit

/-- The arguments of an edit are what the descriptor of BX holds already. -/
def WritesSame (m : Machine) : DescCall → Prop
  | .ax0007 => m.cx * 65536 + m.dx = descBase m.mem (bxDesc m)
  | .ax0008 =>
    let limit := m.cx * 65536 + m.dx
    readb m.mem (bxDesc m) = limitField limit % 256 ∧
      readb m.mem (bxDesc m + 1) = limitField limit / 256 % 256 ∧
        readb m.mem (bxDesc m + 6) =
          limitFlags (readb m.mem (bxDesc m + 6)) (limitField limit) (0xFFFFF < limit)
  | .ax0009 => readb m.mem (bxDesc m + 5) = m.r8l .ecx ∧
      readb m.mem (bxDesc m + 6) / 16 = m.r8h .ecx / 16
  | .ax000C => ∀ k < 8, readb m.mem (lin (esBuffer m .edi + k)) = readb m.mem (bxDesc m + k)
  | .ax0001 | .ax0101 => True

/-- The call spares the host's entries. -/
def Spares (m : Machine) (c : DescCall) : Prop :=
  c = .ax0001 ∨ c = .ax0101 ∨ (NamesHostSlot m.bx → WritesSame m c)

/-! ### One edit -/

theorem sameDesc_of_off {mem mem' : Mem} {p q : Nat} (h : AgreesOff (Set.Ico p (p + 8)) mem mem')
    (hpq : q + 8 ≤ p ∨ p + 8 ≤ q) : SameDesc mem mem' q := by
  intro k hk
  apply h.readb
  simp only [Set.mem_Ico]
  omega

theorem hostSlots_lt {i : Nat} (h : i ∈ hostSlots) : i < 16 := by
  simp only [hostSlots, List.mem_cons, List.not_mem_nil, or_false] at h
  omega

/-- An edit of the descriptor of BX keeps the host's entries exactly where it does not touch one or
    writes what is there. -/
theorem editDesc_kept_iff {f : Mem → Nat → Mem}
    (hoff : AgreesOff (Set.Ico (bxDesc m) (bxDesc m + 8)) m.mem (f m.mem (bxDesc m)))
    (h : editDesc eng m f = some (r, cf)) :
    HostEntriesKept m r ↔ (NamesHostSlot m.bx → SameDesc m.mem (f m.mem (bxDesc m)) (bxDesc m)) := by
  unfold editDesc at h
  split at h
  · rename_i hv
    cases h
    refine ⟨fun _ hn => ?_, fun _ i _ k _ => rfl⟩
    have hlt := hostSlots_lt hn.2
    unfold selectorIsValid at hv
    dsimp only at hv
    rw [if_neg hn.1] at hv
    have hle : GDT_LIMIT < m.bx / 8 * 8 + 7 := by simpa using hv
    simp only [GDT_LIMIT] at hle
    omega
  · cases h
    have hreload := sameHost_reloadLoadedSelector eng { m with mem := f m.mem (bxDesc m) } m.bx
    have hmem : (reloadLoadedSelector eng { m with mem := f m.mem (bxDesc m) } m.bx).mem =
        f m.mem (bxDesc m) := by rw [hreload]
    unfold HostEntriesKept
    rw [hmem]
    constructor
    · rintro hkept ⟨hti, hslot⟩
      have haddr : bxDesc m = GDT_BASE + m.bx / 8 * 8 := by
        rw [bxDesc, descAddr, selectorTableBase, if_neg hti]
      rw [haddr] at hkept ⊢
      exact hkept _ hslot
    · intro hsame i hi
      have hlt := hostSlots_lt hi
      by_cases hti : m.bx / 4 % 2 = 1
      · have haddr : bxDesc m = LDT_BASE + m.bx / 8 * 8 := descAddr_ldt hti
        refine sameDesc_of_off hoff (.inl ?_)
        rw [haddr]
        simp only [GDT_BASE, LDT_BASE]
        omega
      · have haddr : bxDesc m = GDT_BASE + m.bx / 8 * 8 := by
          rw [bxDesc, descAddr, selectorTableBase, if_neg hti]
        by_cases hslot : m.bx / 8 = i
        · have hs := hsame ⟨hti, hslot ▸ hi⟩
          rw [haddr, hslot] at hs
          rw [haddr, hslot]
          exact hs
        · refine sameDesc_of_off hoff ?_
          rw [haddr]
          omega

/-! ### What the edits write -/

/-- Single bytes of the descriptor at `p`, by their offsets. -/
def patchDesc (mem : Mem) (p : Nat) (es : List (Nat × Nat)) : Mem :=
  es.foldl (fun mem e => writeb mem (p + e.1) e.2) mem

theorem patchDesc_off (mem : Mem) (p : Nat) {es : List (Nat × Nat)} (hlt : ∀ e ∈ es, e.1 < 8) :
    AgreesOff (Set.Ico p (p + 8)) mem (patchDesc mem p es) := by
  induction es generalizing mem with
  | nil => exact AgreesOff.refl _ _
  | cons e es ih =>
    have he : e.1 < 8 := hlt e (by simp)
    refine AgreesOff.trans ?_ (ih (writeb mem (p + e.1) e.2) fun e' he' => hlt e' (by simp [he']))
    refine (writeb_off mem (p + e.1) e.2).mono fun x hx => ?_
    simp only [Set.mem_Ico] at hx ⊢
    omega

theorem readb_patchDesc_of_notMem (mem : Mem) (p : Nat) {es : List (Nat × Nat)} {k : Nat}
    (h : k ∉ es.map Prod.fst) : readb (patchDesc mem p es) (p + k) = readb mem (p + k) := by
  induction es generalizing mem with
  | nil => rfl
  | cons e es ih =>
    simp only [List.map_cons, List.mem_cons, not_or] at h
    exact (ih (writeb mem (p + e.1) e.2) h.2).trans (readb_writeb_of_ne (by omega))

theorem readb_patchDesc (mem : Mem) (p : Nat) {es : List (Nat × Nat)} (hnd : (es.map Prod.fst).Nodup)
    {e : Nat × Nat} (he : e ∈ es) : readb (patchDesc mem p es) (p + e.1) = e.2 % 256 := by
  induction es generalizing mem with
  | nil => cases he
  | cons a es ih =>
    simp only [List.map_cons, List.nodup_cons] at hnd
    rcases List.mem_cons.mp he with rfl | he
    · exact (readb_patchDesc_of_notMem _ p hnd.1).trans (readb_writeb mem _ _)
    · exact ih (writeb mem (p + a.1) a.2) hnd.2 he

theorem sameDesc_patch_iff (mem : Mem) (p : Nat) {es : List (Nat × Nat)}
    (hnd : (es.map Prod.fst).Nodup) (hlt : ∀ e ∈ es, e.1 < 8) :
    SameDesc mem (patchDesc mem p es) p ↔ ∀ e ∈ es, readb mem (p + e.1) = e.2 % 256 := by
  constructor
  · intro hs e he
    exact (hs e.1 (hlt e he)).symm.trans (readb_patchDesc mem p hnd he)
  · intro hb k _
    by_cases hk : k ∈ es.map Prod.fst
    · obtain ⟨e, he, rfl⟩ := List.mem_map.mp hk
      rw [readb_patchDesc mem p hnd he, hb e he]
    · exact readb_patchDesc_of_notMem mem p hk

/-- An edit that patches bytes. -/
theorem patch_kept_iff {f : Mem → Nat → Mem} {es : List (Nat × Nat)}
    (hf : f m.mem (bxDesc m) = patchDesc m.mem (bxDesc m) es) (hnd : (es.map Prod.fst).Nodup)
    (hlt : ∀ e ∈ es, e.1 < 8) (h : editDesc eng m f = some (r, cf)) :
    HostEntriesKept m r ↔
      (NamesHostSlot m.bx → ∀ e ∈ es, readb m.mem (bxDesc m + e.1) = e.2 % 256) := by
  rw [editDesc_kept_iff (by rw [hf]; exact patchDesc_off m.mem (bxDesc m) hlt) h, hf,
    sameDesc_patch_iff m.mem (bxDesc m) hnd hlt]

theorem int31_0007_kept_iff (h : int31_0007 eng m = some (r, cf)) :
    HostEntriesKept m r ↔ (NamesHostSlot m.bx → WritesSame m .ax0007) := by
  have h₁ : m.cx < 65536 := r16_lt m .ecx
  have h₂ : m.dx < 65536 := r16_lt m .edx
  generalize hbase : m.cx * 65536 + m.dx = base
  have hedit : patchDesc m.mem (bxDesc m)
      [(2, base), (3, base / 256), (4, base / 65536), (7, base / 16777216)] =
      writeb (writeb (writeb (writeb m.mem (bxDesc m + 2) base) (bxDesc m + 3) (base / 256))
        (bxDesc m + 4) (base / 65536)) (bxDesc m + 7) (base / 16777216) := rfl
  unfold int31_0007 at h
  rw [hbase] at h
  rw [patch_kept_iff hedit.symm (by simp) (by simp) h]
  refine forall_congr' fun _ => ?_
  simp only [List.forall_mem_cons, List.not_mem_nil, false_implies, implies_true, and_true, WritesSame,
    hbase, descBase]
  have hb := fun k => readb_lt m.mem (bxDesc m + k)
  have hb₂ := hb 2
  have hb₃ := hb 3
  have hb₄ := hb 4
  have hb₇ := hb 7
  constructor
  · rintro ⟨h₂, h₃, h₄, h₇⟩
    omega
  · intro heq
    refine ⟨?_, ?_, ?_, ?_⟩ <;> omega

theorem int31_0008_kept_iff (h : int31_0008 eng m = some (r, cf)) :
    HostEntriesKept m r ↔ (NamesHostSlot m.bx → WritesSame m .ax0008) := by
  generalize hlimit : m.cx * 65536 + m.dx = limit
  have hedit : (fun (mem : Mem) (p : Nat) =>
      writeb (writeb (writeb mem p (limitField limit)) (p + 1) (limitField limit / 256)) (p + 6)
        (readb (writeb (writeb mem p (limitField limit)) (p + 1) (limitField limit / 256)) (p + 6)
          / 32 % 4 * 32 + limitField limit / 65536 % 16 + if 0xFFFFF < limit then 0x80 else 0))
      m.mem (bxDesc m) = patchDesc m.mem (bxDesc m) [(0, limitField limit), (1, limitField limit / 256),
        (6, limitFlags (readb m.mem (bxDesc m + 6)) (limitField limit) (0xFFFFF < limit))] := by
    have hflags : readb (writeb (writeb m.mem (bxDesc m) (limitField limit)) (bxDesc m + 1)
        (limitField limit / 256)) (bxDesc m + 6) = readb m.mem (bxDesc m + 6) := by
      rw [readb_writeb_of_ne (by omega), readb_writeb_of_ne (by omega)]
    simp only [hflags, patchDesc, List.foldl_cons, List.foldl_nil, limitFlags, decide_eq_true_eq]
    rfl
  have hlt : limitFlags (readb m.mem (bxDesc m + 6)) (limitField limit) (0xFFFFF < limit) < 256 := by
    unfold limitFlags
    split <;> omega
  unfold int31_0008 at h
  rw [hlimit] at h
  rw [patch_kept_iff hedit (by simp) (by simp) h]
  refine forall_congr' fun _ => ?_
  simp only [List.forall_mem_cons, List.not_mem_nil, false_implies, implies_true, and_true, WritesSame,
    hlimit, Nat.mod_eq_of_lt hlt, Nat.add_zero]

theorem int31_0009_kept_iff (h : int31_0009 eng m = some (r, cf)) :
    HostEntriesKept m r ↔ (NamesHostSlot m.bx → WritesSame m .ax0009) := by
  have hedit : (fun (mem : Mem) (p : Nat) =>
      writeb (writeb mem (p + 5) (m.r8l .ecx)) (p + 6)
        (readb (writeb mem (p + 5) (m.r8l .ecx)) (p + 6) % 16 + m.r8h .ecx / 16 * 16))
      m.mem (bxDesc m) = patchDesc m.mem (bxDesc m)
        [(5, m.r8l .ecx), (6, readb m.mem (bxDesc m + 6) % 16 + m.r8h .ecx / 16 * 16)] := by
    have hflags : readb (writeb m.mem (bxDesc m + 5) (m.r8l .ecx)) (bxDesc m + 6) =
        readb m.mem (bxDesc m + 6) := readb_writeb_of_ne (by omega)
    simp only [hflags, patchDesc, List.foldl_cons, List.foldl_nil]
  have hcl : m.r8l .ecx < 256 := Nat.mod_lt _ (by decide)
  have hch : m.r8h .ecx < 256 := Nat.mod_lt _ (by decide)
  have hb₆ := readb_lt m.mem (bxDesc m + 6)
  unfold int31_0009 at h
  rw [patch_kept_iff hedit (by simp) (by simp) h]
  refine forall_congr' fun _ => ?_
  simp only [List.forall_mem_cons, List.not_mem_nil, false_implies, implies_true, and_true, WritesSame,
    Nat.mod_eq_of_lt hcl]
  refine and_congr_right fun _ => ?_
  omega

/-- The first `n` steps of `copyDesc`. -/
def copyBytes (mem : Mem) (dst src n : Nat) : Mem :=
  (List.range n).foldl (fun mem i => writeb mem (lin (dst + i)) (readb mem (lin (src + i)))) mem

theorem copyBytes_succ (mem : Mem) {dst n : Nat} (src : Nat) (h : dst + n < 4294967296) :
    copyBytes mem dst src (n + 1) =
      writeb (copyBytes mem dst src n) (dst + n) (readb (copyBytes mem dst src n) (lin (src + n))) := by
  rw [copyBytes, List.range_succ, List.foldl_append, List.foldl_cons, List.foldl_nil, lin_of_lt h]
  rfl

theorem writeb_self (mem : Mem) {a v : Nat} (h : v = readb mem a) : writeb mem a v = mem := by
  funext x
  by_cases hx : x = a
  · subst hx
    simp [writeb, h, readb]
  · exact writeb_of_ne hx

/-- A byte once copied stays. -/
theorem copyBytes_stays (mem : Mem) {dst k : Nat} (src n : Nat) (hdst : dst + 8 ≤ 4294967296)
    (hn : k + 1 + n ≤ 8) : readb (copyBytes mem dst src (k + 1 + n)) (dst + k) =
      readb (copyBytes mem dst src (k + 1)) (dst + k) := by
  induction n with
  | zero => rfl
  | succ n ih =>
    rw [show k + 1 + (n + 1) = k + 1 + n + 1 by omega, copyBytes_succ mem src (by omega),
      readb_writeb_of_ne (by omega)]
    exact ih (by omega)

/-- Copying over a descriptor leaves it exactly where the bytes are its own. -/
theorem sameDesc_copy_iff (mem : Mem) {dst : Nat} (src : Nat) (hdst : dst + 8 ≤ 4294967296) :
    SameDesc mem (copyDesc mem dst src) dst ↔
      ∀ k < 8, readb mem (lin (src + k)) = readb mem (dst + k) := by
  have hcopy : copyDesc mem dst src = copyBytes mem dst src 8 := rfl
  constructor
  · intro hs
    -- nothing is changed up to byte `k`, so byte `k` is copied from the memory before
    have hsame : ∀ k ≤ 8, copyBytes mem dst src k = mem ∧
        ∀ j < k, readb mem (lin (src + j)) = readb mem (dst + j) := by
      intro k
      induction k with
      | zero => exact fun _ => ⟨rfl, fun j hj => absurd hj (Nat.not_lt_zero j)⟩
      | succ k ih =>
        intro hk
        obtain ⟨hmem, hbytes⟩ := ih (by omega)
        have hstep := copyBytes_succ mem src (show dst + k < 4294967296 by omega)
        rw [hmem] at hstep
        have hfinal := hs k (by omega)
        rw [hcopy, show 8 = k + 1 + (7 - k) by omega, copyBytes_stays mem src (7 - k) hdst (by omega),
          hstep, readb_writeb, Nat.mod_eq_of_lt (readb_lt _ _)] at hfinal
        refine ⟨hstep.trans (writeb_self mem hfinal), fun j hj => ?_⟩
        rcases Nat.lt_succ_iff_lt_or_eq.mp hj with hj | rfl
        · exact hbytes j hj
        · exact hfinal
    exact (hsame 8 (le_refl 8)).2
  · intro hb
    have hsame : ∀ k ≤ 8, copyBytes mem dst src k = mem := by
      intro k
      induction k with
      | zero => exact fun _ => rfl
      | succ k ih =>
        intro hk
        rw [copyBytes_succ mem src (by omega), ih (by omega)]
        exact writeb_self mem (hb k (by omega))
    rw [hcopy, hsame 8 (le_refl 8)]
    exact fun _ _ => rfl

theorem int31_000C_kept_iff (h : int31_000C eng m = some (r, cf)) :
    HostEntriesKept m r ↔ (NamesHostSlot m.bx → WritesSame m .ax000C) := by
  have hlt : bxDesc m + 8 ≤ 4294967296 := descAddr_lt (r16_lt m .ebx)
  unfold int31_000C at h
  rw [editDesc_kept_iff (f := fun mem p => copyDesc mem p (esBuffer m .edi))
    (copyDesc_off m.mem (esBuffer m .edi) hlt) h]
  exact forall_congr' fun _ => sameDesc_copy_iff m.mem (esBuffer m .edi) hlt

/-! ### The calls -/

theorem int31_0001_kept (h : int31_0001 m = some (r, cf)) : HostEntriesKept m r := by
  unfold int31_0001 at h
  split at h <;> cases h <;> exact fun _ _ _ _ => rfl

theorem int31_0101_kept (h : int31_0101 m = some (r, cf)) : HostEntriesKept m r := by
  unfold int31_0101 at h
  rcases harg : dosBlockSlot m m.dx with _ | idx
  · rw [harg] at h
    cases h
    exact fun _ _ _ _ => rfl
  · rw [harg] at h
    cases h
    intro i hi
    have hlow := mcbFree_low m (slotDataSeg m idx)
    have hldt := writeLdtDescriptor_off (mcbFree m (slotDataSeg m idx)).1.mem idx 0 0 0 false
    intro k hk
    have hlt := hostSlots_lt hi
    have h₁ := hldt.readb (a := GDT_BASE + i * 8 + k) (by
      simp only [Set.mem_Ico, LDT_BASE, GDT_BASE]
      omega)
    have h₂ := hlow.readb (a := GDT_BASE + i * 8 + k) (by
      simp only [Set.mem_Iio, GDT_BASE]
      omega)
    exact h₁.trans h₂

/-- The flags image `set_cf` edits lies on the host's ring-0 stack. -/
def FlagsOnHostStack (m : Machine) : Prop :=
  PM_CB_STACK_BASE ≤ flagsAddr m ∧ flagsAddr m + 2 ≤ PM_CB_STACK_BASE + PM_CB_STACK_SIZE

/-- **The host's GDT entries.**  A descriptor service keeps them exactly where it spares them: AX=0001
    and AX=0101 always do, an edit does where its selector names none of them or its arguments
    are what the entry holds.  The `set_cf` it ends in, on the host's stack, changes none. -/
theorem hostEntries_kept_iff {c : DescCall} (h : c.serve eng m = some (r, cf)) :
    (HostEntriesKept m r ↔ Spares m c) ∧
      (FlagsOnHostStack r → HostEntriesKept r (setCf r cf)) := by
  constructor
  · cases c with
    | ax0001 => exact iff_of_true (int31_0001_kept h) (.inl rfl)
    | ax0101 => exact iff_of_true (int31_0101_kept h) (.inr (.inl rfl))
    | ax0007 =>
      rw [int31_0007_kept_iff h]
      simp [Spares]
    | ax0008 =>
      rw [int31_0008_kept_iff h]
      simp [Spares]
    | ax0009 =>
      rw [int31_0009_kept_iff h]
      simp [Spares]
    | ax000C =>
      rw [int31_000C_kept_iff h]
      simp [Spares]
  · rintro ⟨hlow, -⟩ i hi k hk
    have hlt := hostSlots_lt hi
    refine (editFlag_off r.mem (flagsAddr r) 0x0001 cf).readb ?_
    simp only [Set.mem_Ico, PM_CB_STACK_BASE, GDT_BASE] at hlow ⊢
    omega

theorem loadRegs_regs (m : Machine) (bx cx dx : Nat) : (loadRegs m bx cx dx).bx = bx % 65536 ∧
    (loadRegs m bx cx dx).cx = cx % 65536 ∧ (loadRegs m bx cx dx).dx = dx % 65536 := by
  refine ⟨?_, ?_, r16_setR16 _ .edx dx⟩
  · exact (r16_setR16_of_ne _ dx (by decide)).trans
      ((r16_setR16_of_ne _ cx (by decide)).trans (r16_setR16 m .ebx bx))
  · exact (r16_setR16_of_ne _ dx (by decide)).trans (r16_setR16 _ .ecx cx)

/-- AX=0007 on the callback code selector 28h is answered, and changes its entry for one of two
    bases. -/
theorem rebase_callback (eng : Engine) (m : Machine) :
    ¬ ∀ n r cf, int31_0007 eng (loadRegs m 0x28 n 0) = some (r, cf) →
      HostEntriesKept (loadRegs m 0x28 n 0) r := by
  intro h
  have hbase : ∀ n < 65536, n * 65536 = descBase m.mem (GDT_BASE + 5 * 8) := by
    intro n hn
    obtain ⟨hbx, hcx, hdx⟩ := loadRegs_regs m 0x28 n 0
    have haddr : bxDesc (loadRegs m 0x28 n 0) = GDT_BASE + 5 * 8 := by
      rw [bxDesc, hbx]
      decide
    obtain ⟨⟨r, cf⟩, hr⟩ : ∃ p, int31_0007 eng (loadRegs m 0x28 n 0) = some p := by
      unfold int31_0007 editDesc
      dsimp only
      rw [if_neg (by rw [hbx]; decide)]
      exact ⟨_, rfl⟩
    have hsame := (int31_0007_kept_iff hr).mp (h n r cf hr) (by rw [hbx]; exact ⟨by decide, by decide⟩)
    simp only [WritesSame, hcx, hdx, haddr] at hsame
    have hmem : (loadRegs m 0x28 n 0).mem = m.mem := rfl
    rw [Nat.mod_eq_of_lt hn, hmem, Nat.zero_mod, Nat.add_zero] at hsame
    rw [hsame]
  have h₀ := hbase 0 (by decide)
  have h₁ := hbase 1 (by decide)
  omega

/-- A 32-bit client right after its entry. -/
def ring3Client : Machine := dosizDpmiEntry tableEngine (bootMachine.setR16 .eax 1)

theorem hostEntries_kept_iff_ldt : ∃ r cf,
    DescCall.serve tableEngine .ax0007 (loadRegs bootMachine 0xC 5 0) = some (r, cf) ∧
      HostEntriesKept (loadRegs bootMachine 0xC 5 0) r := by
  obtain ⟨hbx, -, -⟩ := loadRegs_regs bootMachine 0xC 5 0
  obtain ⟨⟨r, cf⟩, h⟩ : ∃ p, DescCall.serve tableEngine .ax0007 (loadRegs bootMachine 0xC 5 0) =
      some p := by
    unfold DescCall.serve int31_0007 editDesc
    dsimp only
    rw [if_neg (by rw [hbx]; decide)]
    exact ⟨_, rfl⟩
  refine ⟨r, cf, h, (hostEntries_kept_iff h).1.mpr (.inr (.inr fun hn => ?_))⟩
  rw [hbx] at hn
  exact absurd rfl hn.1

/-- A ring-3 client moves the segment of the host's callback code. -/
theorem ring3_edits_host : ring3Client.clientCpl = 3 ∧
    ¬ ∀ n r cf, DescCall.serve tableEngine .ax0007 (loadRegs ring3Client 0x28 n 0) = some (r, cf) →
      HostEntriesKept (loadRegs ring3Client 0x28 n 0) r := by
  constructor
  · have hring := (ldtFresh_entry tableEngine (bootMachine.setR16 .eax 1)).ring
    rw [if_pos (by decide)] at hring
    rw [ring3Client]
    exact hring
  · exact rebase_callback tableEngine ring3Client

end Dosiz
