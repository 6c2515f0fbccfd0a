/-
  Dosiz/DescriptorFields.lean
  ===========================
  **What the descriptor services do to the fields of a descriptor.**

  AX=0007, AX=0008 and AX=0009 each patch some bytes of the descriptor of BX; the fields are read
  off the bytes by `descBase`, `getLimit` and the like.  `descriptor_services_iff` says that each
  of them sets its own field and no other, with one exception: AX=0008 keeps bits 5 and 6 of the
  flags byte for "D, AVL", but AVL is bit 4, which it clears.  AX=000C of the bytes AX=000B
  returned changes nothing, where AX=000B's own buffer is not in a descriptor table.
-/
import Dosiz.HostDescriptors

namespace Dosiz

open ByteMemory Machine

/-! ### The fields -/

/-- The access byte of the descriptor at `p`. -/
def descAccess (mem : Mem) (p : Nat) : Nat := readb mem (p + 5)

/-- The flag bits (G, D, reserved, AVL) of the descriptor at `p`. -/
def descFlags (mem : Mem) (p : Nat) : Nat := readb mem (p + 6) / 16

/-- `avl` of the descriptor at `p`. -/
def descAvl (mem : Mem) (p : Nat) : Bool := readb mem (p + 6) / 16 % 2 = 1

/-- The two descriptor tables. -/
def descTables : Set Nat :=
  Set.Ico GDT_BASE (GDT_BASE + GDT_LIMIT + 1) ∪ Set.Ico LDT_BASE (LDT_BASE + LDT_BYTES)

/-- The descriptor of a valid selector is in its table. -/
theorem descAddr_tables {sel : Nat} (h : selectorIsValid sel = true) :
    Set.Ico (descAddr sel) (descAddr sel + 8) ⊆ descTables := by
  intro x hx
  obtain ⟨hlo, hhi⟩ := hx
  unfold selectorIsValid at h
  unfold descAddr selectorTableBase at hlo hhi
  dsimp only at h
  have hcount : LDT_COUNT = 256 := rfl
  have hbytes : LDT_BYTES = 2048 := rfl
  have hgdt : GDT_LIMIT = 127 := rfl
  split_ifs at h hlo hhi
  · right
    have hidx : sel / 8 < LDT_COUNT := by
      simp only [Bool.not_eq_true', Bool.or_eq_false_iff] at h
      exact Nat.lt_of_not_le (decide_eq_false_iff_not.mp h.2)
    rw [Set.mem_Ico]
    omega
  · left
    have hidx : ¬ GDT_LIMIT < sel / 8 * 8 + 7 := by
      rw [Bool.not_eq_true'] at h
      exact decide_eq_false_iff_not.mp h
    rw [Set.mem_Ico]
    omega

/-! ### An edit -/

section Edit

variable {eng : Engine} {m : Machine}

theorem reload_regs (eng : Engine) (m : Machine) (sel : Nat) :
    (reloadLoadedSelector eng m sel).cpu.regs = m.cpu.regs := by
  unfold reloadLoadedSelector
  dsimp only
  split_ifs
  · rfl
  · generalize [SegName.ds, .es, .fs, .gs, .ss] = segs
    induction segs generalizing m with
    | nil => rfl
    | cons s segs ih =>
      rw [List.foldl_cons, ih]
      split_ifs
      · rfl
      · rfl

/-- The answer of an edit on a selector that is accepted. -/
theorem editDesc_spec (eng : Engine) {f : Mem → Nat → Mem} (h : selectorIsValid m.bx = true) :
    ∃ r, editDesc eng m f = some (r, false) ∧ r.mem = f m.mem (bxDesc m) ∧ r.cpu.regs = m.cpu.regs := by
  have hno : ¬ (!selectorIsValid m.bx) = true := by
    rw [h]
    decide
  refine ⟨_, if_neg hno, ?_, reload_regs eng _ m.bx⟩
  rw [sameHost_reloadLoadedSelector eng _ m.bx]

theorem r16_of_regs {m r : Machine} (h : r.cpu.regs = m.cpu.regs) (x : Reg) : r.r16 x = m.r16 x := by
  rw [r16, r32, h]
  rfl

theorem bxDesc_of_regs {r : Machine} (h : r.cpu.regs = m.cpu.regs) : bxDesc r = bxDesc m := by
  rw [bxDesc, bxDesc, bx, r16_of_regs h]

end Edit

/-! ### The services -/

/-- AX=0007: AX=0006 answers the base just set, and the limit, the access byte and the flags stay,
    with every byte that is not of this descriptor. -/
def SetsBase (eng : Engine) (m : Machine) : Prop :=
  ∃ r, int31_0007 eng m = some (r, false) ∧
    (∃ q, int31_0006 r = some (q, false) ∧ q.cx = m.cx ∧ q.dx = m.dx) ∧
    descBase r.mem (bxDesc m) = m.cx * 65536 + m.dx ∧
    descLimit r.mem (bxDesc m) = descLimit m.mem (bxDesc m) ∧
    descAccess r.mem (bxDesc m) = descAccess m.mem (bxDesc m) ∧
    descFlags r.mem (bxDesc m) = descFlags m.mem (bxDesc m) ∧
    AgreesOff (Set.Ico (bxDesc m) (bxDesc m + 8)) m.mem r.mem

/-- AX=0008: the effective limit is the one just set, and the base, the access byte, D and AVL stay,
    with every byte that is not of this descriptor. -/
def SetsLimit (eng : Engine) (m : Machine) : Prop :=
  ∃ r, int31_0008 eng m = some (r, false) ∧
    getLimit r.mem (bxDesc m) = m.cx * 65536 + m.dx ∧
    descBase r.mem (bxDesc m) = descBase m.mem (bxDesc m) ∧
    descAccess r.mem (bxDesc m) = descAccess m.mem (bxDesc m) ∧
    descBig r.mem (bxDesc m) = descBig m.mem (bxDesc m) ∧
    descAvl r.mem (bxDesc m) = descAvl m.mem (bxDesc m) ∧
    AgreesOff (Set.Ico (bxDesc m) (bxDesc m + 8)) m.mem r.mem

/-- AX=0009: the access byte is CL and the flags are those of CH, and the base and the limit field
    stay, with every byte that is not of this descriptor. -/
def SetsAccess (eng : Engine) (m : Machine) : Prop :=
  ∃ r, int31_0009 eng m = some (r, false) ∧
    descAccess r.mem (bxDesc m) = m.r8l .ecx ∧
    descFlags r.mem (bxDesc m) = m.r8h .ecx / 16 ∧
    descBase r.mem (bxDesc m) = descBase m.mem (bxDesc m) ∧
    descLimit r.mem (bxDesc m) = descLimit m.mem (bxDesc m) ∧
    AgreesOff (Set.Ico (bxDesc m) (bxDesc m + 8)) m.mem r.mem

/-- AX=000B, and AX=000C with the same buffer: the first writes no descriptor, and the second
    changes nothing. -/
def GetsAndSets (eng : Engine) (m : Machine) : Prop :=
  ∃ r, int31_000B m = some (r, false) ∧ (∀ x ∈ descTables, r.mem x = m.mem x) ∧
    ∃ q, int31_000C eng r = some (q, false) ∧ q.mem = r.mem

/-- The limits a descriptor can hold: below 1 MB, or with the low twelve bits set. -/
def LimitArg (m : Machine) : Prop :=
  m.cx * 65536 + m.dx ≤ 0xFFFFF ∨ (m.cx * 65536 + m.dx) % 4096 = 4095

/-- What AX=000B stores in a descriptor table stands there already. -/
def BufferSpares (m : Machine) : Prop :=
  ∀ k < 8, lin (esBuffer m .edi + k) ∈ descTables →
    m.mem (lin (esBuffer m .edi + k)) = m.mem (bxDesc m + k)

section Services

variable {eng : Engine} {m : Machine}

theorem readb_off {mem mem' : Mem} {p k : Nat} {es : List (Nat × Nat)}
    (h : mem' = patchDesc mem p es) (hk : k ∉ es.map Prod.fst) : readb mem' (p + k) = readb mem (p + k) := by
  rw [h]
  exact readb_patchDesc_of_notMem mem p hk

theorem setsBase (h : selectorIsValid m.bx = true) : SetsBase eng m := by
  obtain ⟨r, hr, hmem, hregs⟩ := editDesc_spec eng
    (f := fun mem p => writeb (writeb (writeb (writeb mem (p + 2) (m.cx * 65536 + m.dx)) (p + 3)
      ((m.cx * 65536 + m.dx) / 256)) (p + 4) ((m.cx * 65536 + m.dx) / 65536)) (p + 7)
      ((m.cx * 65536 + m.dx) / 16777216)) h
  have hcx : m.cx < 65536 := r16_lt m .ecx
  have hdx : m.dx < 65536 := r16_lt m .edx
  generalize hb : m.cx * 65536 + m.dx = base at hmem
  have hpatch : r.mem = patchDesc m.mem (bxDesc m)
      [(2, base), (3, base / 256), (4, base / 65536), (7, base / 16777216)] := hmem
  have hbyte : ∀ e ∈ [(2, base), (3, base / 256), (4, base / 65536), (7, base / 16777216)],
      readb r.mem (bxDesc m + e.1) = e.2 % 256 := by
    intro e he
    rw [hpatch]
    exact readb_patchDesc m.mem _ (by simp) he
  have hbase : descBase r.mem (bxDesc m) = base := by
    have h₂ := hbyte (2, base) (by simp)
    have h₃ := hbyte (3, base / 256) (by simp)
    have h₄ := hbyte (4, base / 65536) (by simp)
    have h₇ := hbyte (7, base / 16777216) (by simp)
    rw [descBase, h₂, h₃, h₄, h₇]
    omega
  refine ⟨r, hr, ?_, hbase.trans hb.symm, ?_, readb_off hpatch (by simp), ?_, ?_⟩
  · have hvalid : ¬ (!selectorIsValid r.bx) = true := by
      rw [show r.bx = m.bx from r16_of_regs hregs .ebx, h]
      decide
    refine ⟨_, if_neg hvalid, ?_, ?_⟩
    · rw [bxDesc_of_regs hregs, hbase, setR16s, List.foldl_cons, List.foldl_cons, List.foldl_nil]
      rw [cx, r16_setR16_of_ne _ _ (show Reg.ecx ≠ .edx by decide), r16_setR16]
      omega
    · rw [bxDesc_of_regs hregs, hbase, setR16s, List.foldl_cons, List.foldl_cons, List.foldl_nil, dx,
        r16_setR16]
      omega
  · rw [descLimit, descLimit, readb_off (k := 1) hpatch (by simp), readb_off (k := 6) hpatch (by simp)]
    have h₀ := readb_off (k := 0) hpatch (by simp)
    rw [Nat.add_zero] at h₀
    rw [h₀]
  · rw [descFlags, descFlags, readb_off hpatch (by simp)]
  · rw [hpatch]
    exact patchDesc_off m.mem _ (by simp)

/-- The flags byte AX=0008 writes, bit by bit: the limit's top, AVL and the reserved bit, D and G. -/
theorem limitFlags_bits (flags limit : Nat) (needG : Bool) :
    limitFlags flags limit needG % 16 = limit / 65536 % 16 ∧ limitFlags flags limit needG / 16 % 2 = 0 ∧
      limitFlags flags limit needG / 64 % 2 = flags / 64 % 2 ∧
      limitFlags flags limit needG / 128 = if needG then 1 else 0 := by
  unfold limitFlags
  cases needG
  · refine ⟨?_, ?_, ?_, ?_⟩ <;> simp only [Bool.false_eq_true, if_false] <;> omega
  · refine ⟨?_, ?_, ?_, ?_⟩ <;> simp only [if_true] <;> omega

/-- What AX=0008 leaves in the descriptor. -/
theorem setLimit_bytes (eng : Engine) (h : selectorIsValid m.bx = true) : ∃ r, int31_0008 eng m = some (r, false) ∧
    r.mem = patchDesc m.mem (bxDesc m) [(0, limitField (m.cx * 65536 + m.dx)),
      (1, limitField (m.cx * 65536 + m.dx) / 256),
      (6, limitFlags (readb m.mem (bxDesc m + 6)) (limitField (m.cx * 65536 + m.dx))
        (0xFFFFF < m.cx * 65536 + m.dx))] := by
  obtain ⟨r, hr, hmem, -⟩ := editDesc_spec eng (f := fun mem p =>
    writeb (writeb (writeb mem p (limitField (m.cx * 65536 + m.dx))) (p + 1)
      (limitField (m.cx * 65536 + m.dx) / 256)) (p + 6)
      (readb (writeb (writeb mem p (limitField (m.cx * 65536 + m.dx))) (p + 1)
        (limitField (m.cx * 65536 + m.dx) / 256)) (p + 6) / 32 % 4 * 32
        + limitField (m.cx * 65536 + m.dx) / 65536 % 16
        + if 0xFFFFF < m.cx * 65536 + m.dx then 0x80 else 0)) h
  refine ⟨r, hr, hmem.trans ?_⟩
  rw [readb_writeb_of_ne (by omega), readb_writeb_of_ne (by omega)]
  simp only [patchDesc, List.foldl_cons, List.foldl_nil, limitFlags, decide_eq_true_eq, Nat.add_zero]

theorem setsLimit_iff (h : selectorIsValid m.bx = true) (hl : LimitArg m) :
    SetsLimit eng m ↔ descAvl m.mem (bxDesc m) = false := by
  obtain ⟨r, hr, hmem⟩ := setLimit_bytes eng h
  have hcx : m.cx < 65536 := r16_lt m .ecx
  have hdx : m.dx < 65536 := r16_lt m .edx
  have hlim : m.cx * 65536 + m.dx < 4294967296 := by omega
  unfold LimitArg at hl
  unfold SetsLimit
  generalize m.cx * 65536 + m.dx = limit at *
  obtain ⟨hlow, havl, hbig, hg⟩ := limitFlags_bits (readb m.mem (bxDesc m + 6)) (limitField limit)
    (decide (0xFFFFF < limit))
  have hlt : limitFlags (readb m.mem (bxDesc m + 6)) (limitField limit) (decide (0xFFFFF < limit)) < 256 := by
    unfold limitFlags
    split <;> omega
  generalize limitFlags (readb m.mem (bxDesc m + 6)) (limitField limit) (decide (0xFFFFF < limit)) =
    flags at *
  have hbyte : ∀ e ∈ [(0, limitField limit), (1, limitField limit / 256), (6, flags)],
      readb r.mem (bxDesc m + e.1) = e.2 % 256 := by
    intro e he
    rw [hmem]
    exact readb_patchDesc m.mem _ (by simp) he
  have h₀ := hbyte (0, limitField limit) (by simp)
  have h₁ := hbyte (1, limitField limit / 256) (by simp)
  have h₆ := hbyte (6, flags) (by simp)
  dsimp only at h₀ h₁ h₆
  rw [Nat.add_zero] at h₀
  rw [Nat.mod_eq_of_lt hlt] at h₆
  have havl' : descAvl r.mem (bxDesc m) = false := by
    rw [descAvl, h₆, havl]
    rfl
  constructor
  · rintro ⟨q, hq, -, -, -, -, hkept, -⟩
    rw [hr] at hq
    obtain rfl := congrArg Prod.fst (Option.some.inj hq)
    exact hkept.symm.trans havl'
  · intro hclear
    have hkeep : ∀ k, k ∉ [0, 1, 6] → readb r.mem (bxDesc m + k) = readb m.mem (bxDesc m + k) :=
      fun k hk => readb_off hmem hk
    refine ⟨r, hr, ?_, ?_, hkeep 5 (by decide), ?_, havl'.trans hclear.symm, ?_⟩
    · rw [getLimit, descLimit, h₀, h₁, h₆, hlow, hg]
      by_cases hlarge : 0xFFFFF < limit
      · have hfield : limitField limit = limit / 4096 := if_pos hlarge
        rw [hfield, decide_eq_true hlarge, if_pos rfl, if_pos rfl]
        omega
      · have hfield : limitField limit = limit := if_neg hlarge
        rw [hfield, decide_eq_false hlarge, if_neg (by decide)]
        omega
    · rw [descBase, descBase, hkeep 2 (by decide), hkeep 3 (by decide), hkeep 4 (by decide),
        hkeep 7 (by decide)]
    · rw [descBig, descBig, h₆, hbig]
    · rw [hmem]
      exact patchDesc_off m.mem _ (by simp)

theorem setsAccess (h : selectorIsValid m.bx = true) : SetsAccess eng m := by
  obtain ⟨r, hr, hmem, -⟩ := editDesc_spec eng (f := fun mem p =>
    writeb (writeb mem (p + 5) (m.r8l .ecx)) (p + 6)
      (readb (writeb mem (p + 5) (m.r8l .ecx)) (p + 6) % 16 + m.r8h .ecx / 16 * 16)) h
  have hpatch : r.mem = patchDesc m.mem (bxDesc m)
      [(5, m.r8l .ecx), (6, readb m.mem (bxDesc m + 6) % 16 + m.r8h .ecx / 16 * 16)] := by
    rw [hmem, readb_writeb_of_ne (by omega)]
    rfl
  have hcl : m.r8l .ecx < 256 := Nat.mod_lt _ (by decide)
  have hch : m.r8h .ecx < 256 := Nat.mod_lt _ (by decide)
  have hkeep : ∀ k, k ∉ [5, 6] → readb r.mem (bxDesc m + k) = readb m.mem (bxDesc m + k) :=
    fun k hk => readb_off hpatch hk
  have h₅ : readb r.mem (bxDesc m + 5) = m.r8l .ecx := by
    rw [hpatch]
    exact (readb_patchDesc m.mem _ (by simp) (e := (5, m.r8l .ecx)) (by simp)).trans
      (Nat.mod_eq_of_lt hcl)
  have h₆ : readb r.mem (bxDesc m + 6) = readb m.mem (bxDesc m + 6) % 16 + m.r8h .ecx / 16 * 16 := by
    rw [hpatch]
    exact (readb_patchDesc m.mem _ (by simp)
      (e := (6, readb m.mem (bxDesc m + 6) % 16 + m.r8h .ecx / 16 * 16)) (by simp)).trans
      (Nat.mod_eq_of_lt (by omega))
  refine ⟨r, hr, h₅, ?_, ?_, ?_, ?_⟩
  · rw [descFlags, h₆]
    omega
  · rw [descBase, descBase, hkeep 2 (by decide), hkeep 3 (by decide), hkeep 4 (by decide),
      hkeep 7 (by decide)]
  · have hk₀ := hkeep 0 (by decide)
    rw [Nat.add_zero] at hk₀
    rw [descLimit, descLimit, hk₀, hkeep 1 (by decide), h₆]
    omega
  · rw [hpatch]
    exact patchDesc_off m.mem _ (by simp)

end Services

/-! ### Getting and setting -/

section Copy

variable {mem : Mem} {dst src n k : Nat} {T : Set Nat}

theorem copyBytes_step (mem : Mem) (dst src n : Nat) : copyBytes mem dst src (n + 1) =
    writeb (copyBytes mem dst src n) (lin (dst + n)) (readb (copyBytes mem dst src n) (lin (src + n))) := by
  rw [copyBytes, List.range_succ, List.foldl_append, List.foldl_cons, List.foldl_nil]
  rfl

/-- The eight addresses of a buffer differ, also where it wraps. -/
theorem lin_ne {a i j : Nat} (hi : i < 8) (hj : j < 8) (h : i ≠ j) : lin (a + i) ≠ lin (a + j) := by
  unfold lin
  omega

theorem copyBytes_at (mem : Mem) (dst src n : Nat) :
    copyBytes mem dst src (n + 1) (lin (dst + n)) = copyBytes mem dst src n (lin (src + n)) := by
  rw [copyBytes_step, writeb, if_pos rfl, readb, UInt8.ofNat_toNat]

theorem copyBytes_of_ne {x : Nat} (h : x ≠ lin (dst + n)) :
    copyBytes mem dst src (n + 1) x = copyBytes mem dst src n x := by
  rw [copyBytes_step]
  exact writeb_of_ne h

theorem copyBytes_off {x : Nat} (h : ∀ i < n, x ≠ lin (dst + i)) : copyBytes mem dst src n x = mem x := by
  induction n with
  | zero => rfl
  | succ n ih =>
    rw [copyBytes_of_ne (h n (Nat.lt_succ_self n))]
    exact ih fun i hi => h i (Nat.lt_succ_of_lt hi)

/-- A copy whose source is in `T` keeps `T` exactly where what it stores there stands there. -/
theorem copyBytes_kept_iff (hsrc : ∀ i < 8, lin (src + i) ∈ T) (hn : n ≤ 8) :
    (∀ x ∈ T, copyBytes mem dst src n x = mem x) ↔
      ∀ i < n, lin (dst + i) ∈ T → mem (lin (dst + i)) = mem (lin (src + i)) := by
  induction n with
  | zero => exact ⟨fun _ i hi => absurd hi (Nat.not_lt_zero i), fun _ x _ => rfl⟩
  | succ n ih =>
    have hbefore : (∀ x ∈ T, copyBytes mem dst src (n + 1) x = mem x) →
        ∀ x ∈ T, copyBytes mem dst src n x = mem x := by
      intro hkept x hx
      by_cases hat : x = lin (dst + n)
      · subst hat
        exact copyBytes_off fun i hi => lin_ne (by omega) (by omega) (by omega)
      · exact (copyBytes_of_ne hat).symm.trans (hkept x hx)
    constructor
    · intro hkept i hi hin
      rcases Nat.lt_succ_iff_lt_or_eq.mp hi with hi | rfl
      · exact (ih (by omega)).mp (hbefore hkept) i hi hin
      · rw [← hkept _ hin, copyBytes_at]
        exact hbefore hkept _ (hsrc i (by omega))
    · intro hsame x hx
      have hkept := (ih (by omega)).mpr fun i hi => hsame i (Nat.lt_succ_of_lt hi)
      by_cases hat : x = lin (dst + n)
      · subst hat
        rw [copyBytes_at, hkept _ (hsrc n (by omega))]
        exact (hsame n (Nat.lt_succ_self n) hx).symm
      · rw [copyBytes_of_ne hat]
        exact hkept x hx

/-- Where the source's bytes are kept, the copy holds them. -/
theorem copyBytes_copied (hsrc : ∀ i < 8, lin (src + i) ∈ T) (hn : n ≤ 8)
    (hkept : ∀ x ∈ T, copyBytes mem dst src n x = mem x) (hk : k < n) :
    copyBytes mem dst src n (lin (dst + k)) = mem (lin (src + k)) := by
  have hspare := (copyBytes_kept_iff hsrc hn).mp hkept
  induction n with
  | zero => exact absurd hk (Nat.not_lt_zero k)
  | succ n ih =>
    have hbefore := (copyBytes_kept_iff hsrc (by omega)).mpr fun i hi =>
      hspare i (Nat.lt_succ_of_lt hi)
    rcases Nat.lt_succ_iff_lt_or_eq.mp hk with hk | rfl
    · rw [copyBytes_of_ne (lin_ne (by omega) (by omega) (by omega))]
      exact ih (by omega) hbefore hk fun i hi => hspare i (Nat.lt_succ_of_lt hi)
    · rw [copyBytes_at]
      exact hbefore _ (hsrc k (by omega))

/-- Copying over a descriptor the bytes it has changes nothing. -/
theorem copyDesc_self (hdst : dst + 8 ≤ 4294967296)
    (hb : ∀ k < 8, readb mem (lin (src + k)) = readb mem (dst + k)) : copyDesc mem dst src = mem := by
  have hsame : ∀ k ≤ 8, copyBytes mem dst src k = mem := by
    intro k
    induction k with
    | zero => exact fun _ => rfl
    | succ k ih =>
      intro hk
      rw [copyBytes_succ mem src (by omega), ih (by omega)]
      exact writeb_self mem (hb k (by omega))
  exact hsame 8 (le_refl 8)

end Copy

section GetSet

variable {eng : Engine} {m : Machine}

theorem getsAndSets_iff (h : selectorIsValid m.bx = true) : GetsAndSets eng m ↔ BufferSpares m := by
  have hlt : bxDesc m + 8 ≤ 4294967296 := descAddr_lt (r16_lt m .ebx)
  have hlin : ∀ i < 8, lin (bxDesc m + i) = bxDesc m + i := fun i hi => lin_of_lt (by omega)
  have hsrc : ∀ i < 8, lin (bxDesc m + i) ∈ descTables := by
    intro i hi
    rw [hlin i hi]
    exact descAddr_tables h ⟨Nat.le_add_right _ i, Nat.add_lt_add_left hi _⟩
  have hcopy : copyDesc m.mem (esBuffer m .edi) (bxDesc m) =
      copyBytes m.mem (esBuffer m .edi) (bxDesc m) 8 := rfl
  have hno : ¬ (!selectorIsValid m.bx) = true := by
    rw [h]
    decide
  have hget : int31_000B m =
      some ({ m with mem := copyDesc m.mem (esBuffer m .edi) (bxDesc m) }, false) := if_neg hno
  have hspares : BufferSpares m ↔
      ∀ x ∈ descTables, copyDesc m.mem (esBuffer m .edi) (bxDesc m) x = m.mem x := by
    rw [hcopy, copyBytes_kept_iff hsrc (le_refl 8)]
    refine forall_congr' fun k => forall_congr' fun hk => ?_
    rw [hlin k hk]
  rw [hspares]
  constructor
  · rintro ⟨r, hr, hkept, -⟩
    rw [hget] at hr
    obtain rfl := congrArg Prod.fst (Option.some.inj hr)
    exact hkept
  · intro hkept
    refine ⟨_, hget, hkept, ?_⟩
    obtain ⟨q, hq, hmem, -⟩ := editDesc_spec eng
      (m := { m with mem := copyDesc m.mem (esBuffer m .edi) (bxDesc m) })
      (f := fun mem p => copyDesc mem p (esBuffer m .edi)) h
    refine ⟨q, hq, hmem.trans (copyDesc_self hlt fun k hk => ?_)⟩
    have hcopied := copyBytes_copied hsrc (le_refl 8) hkept hk
    have hown := hkept (bxDesc m + k) (hlin k hk ▸ hsrc k hk)
    rw [hlin k hk] at hcopied
    exact congrArg UInt8.toNat (hcopied.trans hown.symm)

/-- The descriptor services, on every selector that is accepted and whatever its descriptor is. -/
theorem descriptor_services_iff (h : selectorIsValid m.bx = true) :
    SetsBase eng m ∧ (LimitArg m → (SetsLimit eng m ↔ descAvl m.mem (bxDesc m) = false)) ∧
      SetsAccess eng m ∧ (GetsAndSets eng m ↔ BufferSpares m) :=
  ⟨setsBase h, setsLimit_iff h, setsAccess h, getsAndSets_iff h⟩

theorem descriptor_services_ldt : SetsBase tableEngine (loadRegs bootMachine 0xC 5 0) ∧
    (LimitArg (loadRegs bootMachine 0xC 5 0) → (SetsLimit tableEngine (loadRegs bootMachine 0xC 5 0) ↔
      descAvl (loadRegs bootMachine 0xC 5 0).mem (bxDesc (loadRegs bootMachine 0xC 5 0)) = false)) ∧
    SetsAccess tableEngine (loadRegs bootMachine 0xC 5 0) ∧
    (GetsAndSets tableEngine (loadRegs bootMachine 0xC 5 0) ↔
      BufferSpares (loadRegs bootMachine 0xC 5 0)) :=
  descriptor_services_iff (by
    rw [(loadRegs_regs bootMachine 0xC 5 0).1]
    decide)

/-- A descriptor with AVL set. -/
def availMachine : Machine :=
  { loadRegs bootMachine 0xC 0 0 with mem := writeb bootMachine.mem (LDT_BASE + 8 + 6) 0x10 }

/-- A limit of zero set on it clears AVL. -/
theorem setLimit_clears_avail : selectorIsValid availMachine.bx = true ∧ LimitArg availMachine ∧
    ¬ SetsLimit tableEngine availMachine := by
  obtain ⟨hbx, hcx, hdx⟩ := loadRegs_regs bootMachine 0xC 0 0
  have hvalid : selectorIsValid availMachine.bx = true := by
    rw [show availMachine.bx = 0xC from hbx]
    decide
  have hlimit : LimitArg availMachine := by
    left
    rw [show availMachine.cx = 0 from hcx, show availMachine.dx = 0 from hdx]
    decide
  refine ⟨hvalid, hlimit, fun hsets => ?_⟩
  have hclear := (setsLimit_iff hvalid hlimit).mp hsets
  have hset : descAvl availMachine.mem (bxDesc availMachine) = true := by
    rw [bxDesc, show availMachine.bx = 0xC from hbx]
    decide +kernel
  rw [hset] at hclear
  cases hclear

end GetSet

end Dosiz
