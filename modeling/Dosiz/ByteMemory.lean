/-
  Dosiz/ByteMemory.lean
  =====================
  **A flat little-endian byte memory.**

  Memory is a total function from addresses to bytes.  The accessors are the byte,
  word and dword reads and writes of a little-endian machine, a range fill and a
  range copy.  What a store leaves alone is said with one relation,
  `AgreesOff S m m'` (the two memories are equal outside the set `S` of addresses),
  which composes along a sequence of stores and is carried to any read of an
  address outside `S`.
-/
import Mathlib.Data.Set.Basic
import Mathlib.Order.Interval.Set.Basic
import Mathlib.Tactic.SplitIfs

namespace ByteMemory

/-- A byte-addressed memory. -/
abbrev Mem := Nat → UInt8

/-! ### Accessors -/

def readb (m : Mem) (a : Nat) : Nat := (m a).toNat

def readw (m : Mem) (a : Nat) : Nat := readb m a + 256 * readb m (a + 1)

def readd (m : Mem) (a : Nat) : Nat := readw m a + 65536 * readw m (a + 2)

def writeb (m : Mem) (a v : Nat) : Mem := fun x => if x = a then UInt8.ofNat v else m x

def writew (m : Mem) (a v : Nat) : Mem := writeb (writeb m a v) (a + 1) (v / 256)

def writed (m : Mem) (a v : Nat) : Mem := writew (writew m a v) (a + 2) (v / 65536)

/-- Store a list of bytes from `a` on. -/
def storeBytes (m : Mem) (a : Nat) : List Nat → Mem
  | [] => m
  | b :: bs => storeBytes (writeb m a b) (a + 1) bs

/-- Store `v` in the `n` bytes from `a`. -/
def fill (m : Mem) (a n v : Nat) : Mem :=
  fun x => if a ≤ x ∧ x < a + n then UInt8.ofNat v else m x

/-- Overwrite the `n` bytes from `a` with the bytes `bs` holds at offsets `0, 1, …`. -/
def blit (m : Mem) (a n : Nat) (bs : Nat → UInt8) : Mem :=
  fun x => if a ≤ x ∧ x < a + n then bs (x - a) else m x

/-- Store a list of dwords from `a` on. -/
def storeDwords (m : Mem) (a : Nat) : List Nat → Mem
  | [] => m
  | v :: vs => storeDwords (writed m a v) (a + 4) vs

/-- Store entries of a table of eight-byte slots at `base`, one after the other: each the index of a
    slot and its bytes. -/
def storeSlots (m : Mem) (base : Nat) (es : List (Nat × List Nat)) : Mem :=
  es.foldl (fun m e => storeBytes m (base + e.1 * 8) e.2) m

/-- The bytes from `a`, as a function of the offset. -/
def bytesAt (m : Mem) (a : Nat) : Nat → UInt8 := fun i => m (a + i)

/-! ### Reads are in range -/

theorem readb_lt (m : Mem) (a : Nat) : readb m a < 256 := (m a).toNat_lt

theorem readw_lt (m : Mem) (a : Nat) : readw m a < 65536 := by
  have h₀ := readb_lt m a
  have h₁ := readb_lt m (a + 1)
  simp only [readw]
  omega

theorem readd_lt (m : Mem) (a : Nat) : readd m a < 4294967296 := by
  have h₀ := readw_lt m a
  have h₁ := readw_lt m (a + 2)
  simp only [readd]
  omega

/-! ### Agreement outside a set -/

/-- `m'` differs from `m` on `S` at most. -/
def AgreesOff (S : Set Nat) (m m' : Mem) : Prop := ∀ a, a ∉ S → m' a = m a

namespace AgreesOff

variable {S T : Set Nat} {m m' m'' : Mem}

theorem refl (S : Set Nat) (m : Mem) : AgreesOff S m m := fun _ _ => rfl

theorem mono (h : AgreesOff S m m') (hST : S ⊆ T) : AgreesOff T m m' :=
  fun a ha => h a (fun hs => ha (hST hs))

theorem trans (h₁ : AgreesOff S m m') (h₂ : AgreesOff S m' m'') : AgreesOff S m m'' :=
  fun a ha => (h₂ a ha).trans (h₁ a ha)

theorem union (h₁ : AgreesOff S m m') (h₂ : AgreesOff T m' m'') :
    AgreesOff (S ∪ T) m m'' :=
  (h₁.mono Set.subset_union_left).trans (h₂.mono Set.subset_union_right)

theorem readb (h : AgreesOff S m m') {a : Nat} (ha : a ∉ S) :
    ByteMemory.readb m' a = ByteMemory.readb m a := by
  simp only [ByteMemory.readb, h a ha]

theorem readw (h : AgreesOff S m m') {a : Nat} (h₀ : a ∉ S) (h₁ : a + 1 ∉ S) :
    ByteMemory.readw m' a = ByteMemory.readw m a := by
  simp only [ByteMemory.readw, h.readb h₀, h.readb h₁]

theorem readd (h : AgreesOff S m m') {a : Nat} (h₀ : a ∉ S) (h₁ : a + 1 ∉ S)
    (h₂ : a + 2 ∉ S) (h₃ : a + 3 ∉ S) :
    ByteMemory.readd m' a = ByteMemory.readd m a := by
  simp only [ByteMemory.readd, h.readw h₀ h₁, h.readw h₂ h₃]

end AgreesOff

/-! ### What each store leaves alone -/

theorem writeb_of_ne {m : Mem} {a v x : Nat} (h : x ≠ a) : writeb m a v x = m x := by
  simp only [writeb, if_neg h]

theorem writeb_off (m : Mem) (a v : Nat) : AgreesOff (Set.Ico a (a + 1)) m (writeb m a v) := by
  intro x hx
  exact writeb_of_ne (fun h => hx ⟨by omega, by omega⟩)

theorem writew_off (m : Mem) (a v : Nat) : AgreesOff (Set.Ico a (a + 2)) m (writew m a v) := by
  intro x hx
  have h₀ : x ≠ a := fun h => hx ⟨by omega, by omega⟩
  have h₁ : x ≠ a + 1 := fun h => hx ⟨by omega, by omega⟩
  simp only [writew, writeb_of_ne h₁, writeb_of_ne h₀]

theorem writed_off (m : Mem) (a v : Nat) : AgreesOff (Set.Ico a (a + 4)) m (writed m a v) := by
  intro x hx
  have h₀ : x ∉ Set.Ico a (a + 2) := fun h => hx ⟨h.1, by have := h.2; omega⟩
  have h₁ : x ∉ Set.Ico (a + 2) (a + 2 + 2) :=
    fun h => hx ⟨by have := h.1; omega, by have := h.2; omega⟩
  simp only [writed, writew_off _ _ _ x h₁, writew_off _ _ _ x h₀]

theorem storeBytes_off (m : Mem) (a : Nat) (bs : List Nat) :
    AgreesOff (Set.Ico a (a + bs.length)) m (storeBytes m a bs) := by
  induction bs generalizing m a with
  | nil => exact AgreesOff.refl _ _
  | cons b bs ih =>
    have h₁ := (writeb_off m a b).mono (T := Set.Ico a (a + (b :: bs).length)) fun x hx =>
      ⟨hx.1, by have := hx.2; simp only [List.length_cons]; omega⟩
    have h₂ := (ih (writeb m a b) (a + 1)).mono (T := Set.Ico a (a + (b :: bs).length)) fun x hx =>
      ⟨by have := hx.1; omega, by have := hx.2; simp only [List.length_cons]; omega⟩
    exact h₁.trans h₂

theorem fill_off (m : Mem) (a n v : Nat) : AgreesOff (Set.Ico a (a + n)) m (fill m a n v) := by
  intro x hx
  exact if_neg (fun h => hx ⟨h.1, h.2⟩)

theorem blit_off (m : Mem) (a n : Nat) (bs : Nat → UInt8) :
    AgreesOff (Set.Ico a (a + n)) m (blit m a n bs) := by
  intro x hx
  exact if_neg (fun h => hx ⟨h.1, h.2⟩)

/-! ### What each store puts there -/

theorem readb_writeb (m : Mem) (a v : Nat) : readb (writeb m a v) a = v % 256 := by
  simp [readb, writeb, UInt8.toNat_ofNat']

theorem readb_writeb_of_ne {m : Mem} {a b v : Nat} (h : b ≠ a) :
    readb (writeb m a v) b = readb m b := by
  simp only [readb, writeb_of_ne h]

theorem readb_writew_of_ne {m : Mem} {a b v : Nat} (h₀ : b ≠ a) (h₁ : b ≠ a + 1) :
    readb (writew m a v) b = readb m b := by
  simp only [writew, readb_writeb_of_ne h₁, readb_writeb_of_ne h₀]

theorem readw_writew (m : Mem) (a v : Nat) : readw (writew m a v) a = v % 65536 := by
  simp only [readw, writew, readb_writeb, readb_writeb_of_ne (show a ≠ a + 1 by omega)]
  omega

theorem readw_writeb_of_ne {m : Mem} {a b v : Nat} (h₀ : b ≠ a) (h₁ : b + 1 ≠ a) :
    readw (writeb m a v) b = readw m b := by
  simp only [readw, readb_writeb_of_ne h₀, readb_writeb_of_ne h₁]

theorem readw_writew_of_disjoint {m : Mem} {a b v : Nat} (h : b + 2 ≤ a ∨ a + 2 ≤ b) :
    readw (writew m a v) b = readw m b := by
  simp only [readw]
  rw [readb_writew_of_ne (by omega) (by omega), readb_writew_of_ne (by omega) (by omega)]

theorem readd_writed (m : Mem) (a v : Nat) : readd (writed m a v) a = v % 4294967296 := by
  have h : readw (writew (writew m a v) (a + 2) (v / 65536)) a = v % 65536 := by
    rw [readw_writew_of_disjoint (Or.inl (by omega)), readw_writew]
  simp only [readd, writed, h, readw_writew]
  omega

theorem readd_writed_of_disjoint {m : Mem} {a b v : Nat} (h : b + 4 ≤ a ∨ a + 4 ≤ b) :
    readd (writed m a v) b = readd m b := by
  refine (writed_off m a v).readd ?_ ?_ ?_ ?_ <;>
    exact fun hx => by have h₁ := hx.1; have h₂ := hx.2; omega

/-- A stored list of bytes reads back. -/
theorem readb_storeBytes (m : Mem) (a : Nat) (bs : List Nat) {i : Nat} (h : i < bs.length) :
    readb (storeBytes m a bs) (a + i) = bs[i] % 256 := by
  induction bs generalizing m a i with
  | nil => simp at h
  | cons b bs ih =>
    cases i with
    | zero =>
      have hoff := (storeBytes_off (writeb m a b) (a + 1) bs).readb
        (a := a) (fun hx => by have := hx.1; omega)
      simp only [storeBytes, Nat.add_zero, hoff, readb_writeb, List.getElem_cons_zero]
    | succ i =>
      have hi : i < bs.length := by simpa using h
      simp only [storeBytes, show a + (i + 1) = a + 1 + i by omega,
        ih (writeb m a b) (a + 1) hi, List.getElem_cons_succ]

theorem storeDwords_off (m : Mem) (a : Nat) (vs : List Nat) :
    AgreesOff (Set.Ico a (a + 4 * vs.length)) m (storeDwords m a vs) := by
  induction vs generalizing m a with
  | nil => exact AgreesOff.refl _ _
  | cons v vs ih =>
    have h₁ := (writed_off m a v).mono (T := Set.Ico a (a + 4 * (v :: vs).length)) fun x hx =>
      ⟨hx.1, by have := hx.2; simp only [List.length_cons]; omega⟩
    have h₂ := (ih (writed m a v) (a + 4)).mono (T := Set.Ico a (a + 4 * (v :: vs).length))
      fun x hx => ⟨by have := hx.1; omega, by have := hx.2; simp only [List.length_cons]; omega⟩
    exact h₁.trans h₂

/-- A stored list of dwords reads back. -/
theorem readd_storeDwords (m : Mem) (a : Nat) (vs : List Nat) {i : Nat} (h : i < vs.length) :
    readd (storeDwords m a vs) (a + 4 * i) = vs[i] % 4294967296 := by
  induction vs generalizing m a i with
  | nil => simp at h
  | cons v vs ih =>
    cases i with
    | zero =>
      have hout : ∀ k < 4, a + k ∉ Set.Ico (a + 4) (a + 4 + 4 * vs.length) := fun k hk hx => by
        have := hx.1
        omega
      have hoff := (storeDwords_off (writed m a v) (a + 4) vs).readd (a := a) (hout 0 (by decide))
        (hout 1 (by decide)) (hout 2 (by decide)) (hout 3 (by decide))
      simp only [storeDwords, Nat.mul_zero, Nat.add_zero, hoff, readd_writed, List.getElem_cons_zero]
    | succ i =>
      have hi : i < vs.length := by simpa using h
      simp only [storeDwords, show a + 4 * (i + 1) = a + 4 + 4 * i by omega,
        ih (writed m a v) (a + 4) hi, List.getElem_cons_succ]

/-! ### Tables of slots -/

section Slots

variable {m : Mem} {base : Nat} {es : List (Nat × List Nat)}

theorem storeSlots_off (hlen : ∀ e ∈ es, e.2.length = 8) {n : Nat} (hidx : ∀ e ∈ es, e.1 < n) :
    AgreesOff (Set.Ico base (base + n * 8)) m (storeSlots m base es) := by
  induction es generalizing m with
  | nil => exact AgreesOff.refl _ _
  | cons e es ih =>
    have he := hlen e List.mem_cons_self
    have hn := hidx e List.mem_cons_self
    have h₁ := (storeBytes_off m (base + e.1 * 8) e.2).mono (T := Set.Ico base (base + n * 8))
      fun x hx => ⟨by have := hx.1; omega, by have := hx.2; omega⟩
    exact h₁.trans (ih (fun e' h => hlen e' (List.mem_cons_of_mem e h))
      (fun e' h => hidx e' (List.mem_cons_of_mem e h)))

/-- A slot that no entry names keeps its bytes. -/
theorem readb_storeSlots_of_ne (hlen : ∀ e ∈ es, e.2.length = 8) {j k : Nat} (hk : k < 8)
    (hj : ∀ e ∈ es, e.1 ≠ j) : readb (storeSlots m base es) (base + j * 8 + k) = readb m (base + j * 8 + k) := by
  induction es generalizing m with
  | nil => rfl
  | cons e es ih =>
    have he := hlen e List.mem_cons_self
    have hne := hj e List.mem_cons_self
    refine (ih (fun e' h => hlen e' (List.mem_cons_of_mem e h))
      (fun e' h => hj e' (List.mem_cons_of_mem e h))).trans ?_
    refine (storeBytes_off m (base + e.1 * 8) e.2).readb fun hx => ?_
    have h₁ := hx.1
    have h₂ := hx.2
    omega

/-- A slot that one entry names holds its bytes. -/
theorem readb_storeSlots {j k : Nat} (bs : List Nat) (hlen : ∀ e ∈ es, e.2.length = 8)
    (hnodup : (es.map Prod.fst).Nodup) (hmem : (j, bs) ∈ es) (hk : k < bs.length) :
    readb (storeSlots m base es) (base + j * 8 + k) = bs[k] % 256 := by
  induction es generalizing m with
  | nil => cases hmem
  | cons e es ih =>
    have hlen' := fun e' h => hlen e' (List.mem_cons_of_mem e h)
    rw [List.map_cons, List.nodup_cons] at hnodup
    rcases List.mem_cons.mp hmem with rfl | hmem
    · have h8 : k < 8 := by
        have := hlen _ hmem
        simp only at this
        omega
      refine (readb_storeSlots_of_ne (m := storeBytes m (base + j * 8) bs) hlen' h8 ?_).trans
        (readb_storeBytes m (base + j * 8) bs hk)
      intro e' he' hej
      exact hnodup.1 (List.mem_map.mpr ⟨e', he', hej⟩)
    · exact ih hlen' hnodup.2 hmem

end Slots

end ByteMemory
