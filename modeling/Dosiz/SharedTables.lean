/-
  Dosiz/SharedTables.lean
  =======================
  **What all programs share of the protected-mode tables** (`bridge.cc`).

  There is one GDT, one IDT, one table of converted segments (`s_seg2desc_cache`), one client's
  ring and one IDTR, whichever program runs.  `TablesKept` says that a step has left them alone.  A
  function of INT 31h does, unless it is one that writes a descriptor of the GDT, a gate or a conversion,
  or one whose output buffer the client has put on a table.
-/
import Dosiz.ArenaSafety
import Dosiz.CallbackReturn
import Dosiz.LdtSlots

namespace Dosiz.SharedTables

open ByteMemory Machine Mcb PmArena Nesting

/-! ### The tables -/

def gdtBytes : Set Nat := Set.Ico GDT_BASE (GDT_BASE + (GDT_LIMIT + 1))

def idtBytes : Set Nat := Set.Ico IDT_BASE (IDT_BASE + (IDT_LIMIT + 1))

/-- The two tables that no program has for itself. -/
def tableBytes : Set Nat := gdtBytes ∪ idtBytes

/-- No byte of `S` is in a table. -/
def Beside (S : Set Nat) : Prop := ∀ a ∈ S, a ∉ tableBytes

/-- The remembered conversions and the client's ring. -/
def shared (m : Machine) : (Nat → Nat) × Nat := (m.seg2descCache, m.clientCpl)

def idtr (m : Machine) : Nat × Nat := (m.cpu.idtBase, m.cpu.idtLimit)

/-- The tables, the conversions and the ring are the same. -/
structure SharedKept (m m' : Machine) : Prop where
  mem : ∀ a ∈ tableBytes, m'.mem a = m.mem a
  host : shared m' = shared m

/-- So is the IDTR. -/
structure TablesKept (m m' : Machine) : Prop extends SharedKept m m' where
  idtr : idtr m' = idtr m

section Frames

variable {S T : Set Nat} {m m' m'' : Machine}

theorem SharedKept.refl (m : Machine) : SharedKept m m := ⟨fun _ _ => rfl, rfl⟩

theorem SharedKept.trans (h : SharedKept m m') (h' : SharedKept m' m'') : SharedKept m m'' :=
  ⟨fun a ha => (h'.mem a ha).trans (h.mem a ha), h'.host.trans h.host⟩

theorem TablesKept.refl (m : Machine) : TablesKept m m := ⟨.refl m, rfl⟩

theorem TablesKept.trans (h : TablesKept m m') (h' : TablesKept m' m'') : TablesKept m m'' :=
  ⟨h.toSharedKept.trans h'.toSharedKept, h'.idtr.trans h.idtr⟩

theorem Beside.mono (h : Beside T) (hST : S ⊆ T) : Beside S := fun a ha => h a (hST ha)

theorem Beside.union (h : Beside S) (h' : Beside T) : Beside (S ∪ T) := fun a ha => ha.elim (h a) (h' a)

/-- Conventional memory is below the tables. -/
theorem beside_low : Beside firstMegabyte := by
  rintro a ha (⟨h, -⟩ | ⟨h, -⟩)
  · exact absurd (lt_of_lt_of_le ha h) (lt_irrefl _)
  · simp only [Set.mem_Iio, IDT_BASE] at ha h
    omega

/-- The LDT, the host's stacks and the protected-mode arena are above them. -/
theorem beside_high : Beside (Set.Ici LDT_BASE) := by
  rintro a ha (⟨-, h⟩ | ⟨-, h⟩)
  · simp only [Set.mem_Ici, LDT_BASE, GDT_BASE, GDT_LIMIT] at ha h
    omega
  · simp only [Set.mem_Ici, LDT_BASE, IDT_BASE, IDT_LIMIT] at ha h
    omega

theorem sharedKept_of_off (hS : Beside S) (hoff : AgreesOff S m.mem m'.mem) (hh : shared m' = shared m) :
    SharedKept m m' := ⟨fun a ha => hoff a fun hx => hS a hx ha, hh⟩

theorem tablesKept_of_off (hS : Beside S) (hoff : AgreesOff S m.mem m'.mem) (hh : shared m' = shared m)
    (hi : SharedTables.idtr m' = SharedTables.idtr m) : TablesKept m m' := ⟨sharedKept_of_off hS hoff hh, hi⟩

end Frames

/-! ### The functions of INT 31h -/

/-- `n` stores of `w` bytes each, at successive linear addresses. -/
def stored (a w n : Nat) : Set Nat := { x | ∃ i < n, x ∈ Set.Ico (lin (a + i * w)) (lin (a + i * w) + w) }

/-- The client's buffer, for the functions that fill one. -/
def outputBytes (m : Machine) : Set Nat :=
  if m.ax = 0x000B then stored (esBuffer m .edi) 1 8
  else if m.ax = 0x0401 then stored (esBuffer m .edi) 1 8
  else if m.ax = 0x0500 then stored (esBuffer m .edi) 4 12
  else if m.ax = 0x0506 then stored (esBuffer m .edx) 2 m.cx
  else ∅

/-- AX=0100 finds no block or no descriptor. -/
def NoDosBlock (m : Machine) : Prop :=
  m.bx = 0 ∨ ∀ a, mcbAllocate m m.bx = some a → a.2.1 = 0 ∨ ldtFindRun a.1 1 = 0

/-- The call writes no descriptor of the GDT, no gate and no conversion; its buffer is beside the
    tables, and the protected-mode arena is in order. -/
structure Int31Spares (m : Machine) : Prop where
  output : Beside (outputBytes m)
  descriptor : m.ax ∈ [0x0007, 0x0008, 0x0009, 0x000C] → m.bx / 4 % 2 = 1
  converts : m.ax = 0x0002 → m.seg2descCache m.bx ≠ 0 ∨ ldtFindRun m 1 = 0
  forgets : m.ax = 0x0001 → ∀ idx, freeArg m = some idx → ∀ seg, m.seg2descCache seg ≠ idx
  allocates : m.ax = 0x0100 → NoDosBlock m
  releases : m.ax = 0x0101 → ∀ idx, dosBlockSlot m m.dx = some idx → m.seg2descCache (slotDataSeg m idx) = 0
  exception : m.ax = 0x0203 → 32 ≤ m.bl
  vector : m.ax ≠ 0x0205
  arena : m.ax = 0x0501 → PmOk m

section Functions

variable {m : Machine} {r : Machine × Bool}

theorem copyDesc_off (mem : Mem) (dst src : Nat) : AgreesOff (stored dst 1 8) mem (copyDesc mem dst src) := by
  unfold copyDesc
  refine foldl_off (fun i hi mem => (writeb_off mem (lin (dst + i)) _).mono fun x hx => ?_) mem
  exact ⟨i, List.mem_range.mp hi, by simpa using hx⟩

end Functions

end Dosiz.SharedTables
