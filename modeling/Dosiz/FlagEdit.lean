/-
  Dosiz/FlagEdit.lean
  ===================
  **Editing one flag of a FLAGS image in memory.**

  `set_cf`, `CALLBACK_SZF` and `CALLBACK_SCF` all read a word, set or clear one bit of
  it and write it back (`editFlag`).  The carry flag is bit 0 and the zero flag bit 6,
  both in the low byte: the edit changes one bit of one byte and nothing else.
-/
import Dosiz.Machine

namespace Dosiz

open ByteMemory Machine

theorem readw_mod (m : Mem) (a : Nat) : readw m a % 256 = readb m a := by
  have h := readb_lt m a
  simp only [readw]
  omega

theorem readw_div (m : Mem) (a : Nat) : readw m a / 256 = readb m (a + 1) := by
  have h := readb_lt m a
  simp only [readw]
  omega

/-- The bits of a word after one of them was set or cleared. -/
theorem withFlag_testBit {k i : Nat} (hk : k < 16) (hi : i < 16) (val : Bool) (f : BitVec 16) :
    (withFlag (BitVec.twoPow 16 k) val f).getLsbD i = if i = k then val else f.getLsbD i := by
  unfold withFlag
  by_cases h : i = k
  · subst h
    cases val <;> simp [hi]
  · cases val <;> simp [hi, h]

/-- In the byte at `a`, bit `k` takes the value and every other bit stays. -/
theorem editFlag_bit (mem : Mem) (a : Nat) {k : Nat} (hk : k < 8) (val : Bool) {i : Nat}
    (hi : i < 8) :
    (readb (editFlag mem a (BitVec.twoPow 16 k) val) a).testBit i =
      if i = k then val else (readb mem a).testBit i := by
  have hw := readw_lt mem a
  have hlow : (readb mem a).testBit i = (readw mem a).testBit i := by
    rw [← readw_mod, Nat.testBit_mod_two_pow (readw mem a) 8 i]
    simp [hi]
  rw [← readw_mod, editFlag, readw_writew, Nat.testBit_mod_two_pow _ 8 i,
    Nat.testBit_mod_two_pow _ 16 i, BitVec.testBit_toNat, withFlag_testBit (by omega) (by omega),
    BitVec.getLsbD_ofNat, hlow]
  simp only [hi, show i < 16 by omega, decide_true, Bool.true_and]

/-- The byte after `a` is written back as it was. -/
theorem editFlag_high (mem : Mem) (a : Nat) {k : Nat} (hk : k < 8) (val : Bool) :
    readb (editFlag mem a (BitVec.twoPow 16 k) val) (a + 1) = readb mem (a + 1) := by
  have hw := readw_lt mem a
  have hb := readb_lt mem (a + 1)
  rw [← readw_div, editFlag, readw_writew, ← readw_div]
  refine Nat.eq_of_testBit_eq fun i => ?_
  by_cases hi : i < 8
  · rw [Nat.testBit_div_two_pow (n := 8), Nat.testBit_div_two_pow (n := 8),
      Nat.testBit_mod_two_pow _ 16, BitVec.testBit_toNat, withFlag_testBit (by omega) (by omega),
      BitVec.getLsbD_ofNat, if_neg (by omega)]
    simp [show i + 8 < 16 by omega]
  · rw [Nat.testBit_lt_two_pow, Nat.testBit_lt_two_pow]
    · rw [readw_div]
      exact Nat.lt_of_lt_of_le hb (Nat.pow_le_pow_right Nat.two_pos (Nat.le_of_not_lt hi))
    · have h256 : 2 ^ 8 ≤ 2 ^ i := Nat.pow_le_pow_right Nat.two_pos (Nat.le_of_not_lt hi)
      omega

/-- Editing a flag writes one byte. -/
theorem editFlag_off_byte (mem : Mem) (a : Nat) {k : Nat} (hk : k < 8) (val : Bool) :
    AgreesOff {a} mem (editFlag mem a (BitVec.twoPow 16 k) val) := by
  intro x hx
  by_cases h : x = a + 1
  · subst h
    exact UInt8.toNat_inj.mp (editFlag_high mem a hk val)
  · have hx' : x ≠ a := hx
    exact editFlag_off mem a _ val x fun hm => by
      have h₁ := hm.1
      have h₂ := hm.2
      omega

theorem maskCf_eq : (0x0001 : BitVec 16) = BitVec.twoPow 16 0 := by decide

theorem setCf_mem (m : Machine) (val : Bool) :
    (setCf m val).mem = editFlag m.mem (flagsAddr m) (BitVec.twoPow 16 0) val := by
  rw [← maskCf_eq]
  rfl

/-- `set_cf` writes the byte at `flagsAddr` and no other. -/
theorem setCf_off (m : Machine) (val : Bool) : AgreesOff {flagsAddr m} m.mem (setCf m val).mem := by
  rw [setCf_mem]
  exact editFlag_off_byte m.mem (flagsAddr m) (by decide) val

/-- In that byte `set_cf` changes the lowest bit at most. -/
theorem setCf_byte (m : Machine) (val : Bool) :
    ((setCf m val).mem (flagsAddr m)).toNat / 2 = (m.mem (flagsAddr m)).toNat / 2 := by
  refine Nat.eq_of_testBit_eq fun i => ?_
  rw [Nat.testBit_div_two_pow (n := 1), Nat.testBit_div_two_pow (n := 1)]
  by_cases hi : i + 1 < 8
  · have h := editFlag_bit m.mem (flagsAddr m) (by decide : (0 : Nat) < 8) val hi
    rw [if_neg (by omega)] at h
    rw [setCf_mem]
    exact h
  · rw [Nat.testBit_lt_two_pow, Nat.testBit_lt_two_pow] <;>
      exact Nat.lt_of_lt_of_le (UInt8.toNat_lt _)
        (Nat.pow_le_pow_right Nat.two_pos (Nat.le_of_not_lt hi))

/-! ### One bit of one byte -/

/-- From `mem` to `mem'`, bit `k` of the byte at `a` takes the value, and no other bit changes. -/
structure OnlyBit (a k : Nat) (val : Bool) (mem mem' : Mem) : Prop where
  set : (readb mem' a).testBit k = val
  bits : ∀ i < 8, i ≠ k → (readb mem' a).testBit i = (readb mem a).testBit i
  bytes : AgreesOff {a} mem mem'

theorem onlyBit_editFlag (mem : Mem) (a : Nat) {k : Nat} (hk : k < 8) (val : Bool) :
    OnlyBit a k val mem (editFlag mem a (BitVec.twoPow 16 k) val) where
  set := by rw [editFlag_bit mem a hk val hk, if_pos rfl]
  bits i hi hne := by rw [editFlag_bit mem a hk val hi, if_neg hne]
  bytes := editFlag_off_byte mem a hk val

theorem byte_ext {x y : UInt8} (h : ∀ i < 8, x.toNat.testBit i = y.toNat.testBit i) : x = y := by
  refine UInt8.toNat_inj.mp (Nat.eq_of_testBit_eq fun i => ?_)
  by_cases hi : i < 8
  · exact h i hi
  · have h256 : 2 ^ 8 ≤ 2 ^ i := Nat.pow_le_pow_right Nat.two_pos (Nat.le_of_not_lt hi)
    rw [Nat.testBit_lt_two_pow (Nat.lt_of_lt_of_le x.toNat_lt h256),
      Nat.testBit_lt_two_pow (Nat.lt_of_lt_of_le y.toNat_lt h256)]

/-- A bit that has the value already is written back as it was. -/
theorem editFlag_of_bit {mem : Mem} {a k : Nat} (hk : k < 8) {val : Bool}
    (h : (readb mem a).testBit k = val) : editFlag mem a (BitVec.twoPow 16 k) val = mem := by
  funext x
  by_cases hx : x = a
  · subst hx
    refine byte_ext fun i hi => ?_
    have hbit := editFlag_bit mem x hk val hi
    simp only [readb] at hbit h
    rw [hbit]
    split
    · rw [← h, ‹i = k›]
    · rfl
  · exact editFlag_off_byte mem a hk val x hx

/-- Editing at `a` is setting the bit of the byte at `b` when `a` is `b`, or when both bits have
    the value already. -/
theorem onlyBit_editFlag_iff {mem : Mem} {a b k : Nat} (hk : k < 8) {val : Bool} :
    OnlyBit b k val mem (editFlag mem a (BitVec.twoPow 16 k) val) ↔
      a = b ∨ ((readb mem a).testBit k = val ∧ (readb mem b).testBit k = val) := by
  constructor
  · intro h
    by_cases hab : a = b
    · exact Or.inl hab
    · refine Or.inr ⟨?_, ?_⟩
      · have hset := (onlyBit_editFlag mem a hk val).set
        rwa [h.bytes.readb (show a ∉ ({b} : Set Nat) from hab)] at hset
      · have hset := h.set
        rwa [(editFlag_off_byte mem a hk val).readb
          (show b ∉ ({a} : Set Nat) from fun hb => hab hb.symm)] at hset
  · rintro (rfl | ⟨ha, hb⟩)
    · exact onlyBit_editFlag mem a hk val
    · rw [editFlag_of_bit hk ha]
      exact ⟨hb, fun _ _ _ => rfl, AgreesOff.refl _ _⟩

end Dosiz
