/-
  Dosiz/FixupReads.lean
  =====================
  **Reading the fixup records** (`le_apply_fixups` of `bridge.cc`).

  The loop over the records of a page has five bytes in the file when it goes on, and looks
  at the size again before it reads a target's offset.  Before an object number it looks for one
  byte, of two that it reads if the flags say so: `leFixups_cases`.
-/
import Dosiz.LeFixups
import Dosiz.MzImage

namespace Dosiz.FixupReads

open Le

/-! ### Fixup records in the file -/

/-- The length of an internal reference. -/
def recordLength (srcType flags : Nat) : Nat :=
  4 + (if flags / 64 % 2 = 1 then 2 else 1) +
    if srcType % 16 = 2 then 0 else if flags / 16 % 2 = 1 then 4 else 2

/-- A whole internal reference of `n` bytes is at `p`. -/
def WholeRecord (f : List UInt8) (p n : Nat) : Prop :=
  ∃ srcType flags, byteAt f p = some srcType ∧ byteAt f (p + 1) = some flags ∧ flags % 4 = 0 ∧
    n = recordLength srcType flags ∧ p + n ≤ f.length

/-- The loop goes on at `p`: five bytes of the list are left, and of the file. -/
def AtRecord (f : List UInt8) (stop p : Nat) : Prop := p + 5 ≤ stop ∧ p + 5 ≤ f.length

/-- The file ends in the 16-bit object number of an internal reference. -/
def HalfObject (f : List UInt8) (p : Nat) : Prop :=
  p + 5 = f.length ∧ ∃ flags, byteAt f (p + 1) = some flags ∧ flags % 4 = 0 ∧ flags / 64 % 2 = 1

/-- From `p` on there are whole internal references, to the end of the list or of the file. -/
inductive RecordsRead (f : List UInt8) (stop : Nat) : Nat → Prop where
  | done {p : Nat} (finished : ¬ AtRecord f stop p) : RecordsRead f stop p
  | next {p n : Nat} (more : AtRecord f stop p) (whole : WholeRecord f p n)
      (rest : RecordsRead f stop (p + n)) : RecordsRead f stop p

/-- Behind whole internal references the file ends in an object number. -/
inductive RecordsHalf (f : List UInt8) (stop : Nat) : Nat → Prop where
  | half {p : Nat} (more : AtRecord f stop p) (cut : HalfObject f p) : RecordsHalf f stop p
  | next {p n : Nat} (more : AtRecord f stop p) (whole : WholeRecord f p n)
      (rest : RecordsHalf f stop (p + n)) : RecordsHalf f stop p

section Pages

variable (f : List UInt8) (le : Nat) (t : FixupTables) (objects : List LeObject)

/-- The records of page `pg` (from 0) start and stop here, counted from the start of the records. -/
def PageAt (pg start stop : Nat) : Prop :=
  rdd f (le + t.pageTbl + lin (pg * 4)) = some start ∧
    rdd f (le + t.pageTbl + lin ((pg + 1) * 4)) = some stop ∧ start ≤ stop

end Pages

section Records

variable {f : List UInt8} {stop p : Nat}

theorem five_le_recordLength (srcType flags : Nat) : 5 ≤ recordLength srcType flags := by
  unfold recordLength
  split_ifs <;> omega

theorem WholeRecord.five_le {n : Nat} (h : WholeRecord f p n) : 5 ≤ n := by
  obtain ⟨srcType, flags, -, -, -, rfl, -⟩ := h
  exact five_le_recordLength srcType flags

/-- A record has one length. -/
theorem WholeRecord.unique {n n' : Nat} (h : WholeRecord f p n) (h' : WholeRecord f p n') : n = n' := by
  obtain ⟨srcType, flags, h₁, h₂, -, hn, -⟩ := h
  obtain ⟨srcType', flags', h₁', h₂', -, hn', -⟩ := h'
  cases h₁.symm.trans h₁'
  cases h₂.symm.trans h₂'
  rw [hn, hn']

theorem WholeRecord.not_half {n : Nat} (h : WholeRecord f p n) : ¬ HalfObject f p := by
  rintro ⟨hend, flags, hf, -, hwide⟩
  obtain ⟨srcType, flags', -, hf', -, hn, hin⟩ := h
  cases hf.symm.trans hf'
  unfold recordLength at hn
  rw [if_pos hwide] at hn
  omega

/-- What is behind a whole record decides. -/
theorem RecordsHalf.tail {n : Nat} (h : RecordsHalf f stop p) (hn : WholeRecord f p n) :
    RecordsHalf f stop (p + n) := by
  cases h with
  | half more cut => exact absurd cut hn.not_half
  | next more whole rest =>
    rw [hn.unique whole]
    exact rest

theorem RecordsRead.tail {n : Nat} (h : RecordsRead f stop p) (hat : AtRecord f stop p)
    (hn : WholeRecord f p n) : RecordsRead f stop (p + n) := by
  cases h with
  | done finished => exact absurd hat finished
  | next more whole rest =>
    rw [hn.unique whole]
    exact rest

end Records

/-! ### The pages -/

section Pages

variable {f : List UInt8} {le : Nat} {t : FixupTables} {objects : List LeObject} {pg : Nat}

theorem PageAt.unique {start stop start' stop' : Nat} (h : PageAt f le t pg start stop)
    (h' : PageAt f le t pg start' stop') : start = start' ∧ stop = stop' :=
  ⟨Option.some.inj (h.1.symm.trans h'.1), Option.some.inj (h.2.1.symm.trans h'.2.1)⟩

end Pages

/-! ### The place in memory does not matter -/

section Placed

variable {f : List UInt8} {le : Nat} {t : FixupTables} {objects : List LeObject}

end Placed

end Dosiz.FixupReads
