/-
  Dosiz/ServiceFrame.lean
  =======================
  **What the DPMI services leave alone.**

  Every function of `dosizInt31` answers with a machine whose process globals (the stack
  of parents, the exit flags, the current PSP, the handle table, the client's ring, the
  stubs) are those it was called with.  One lemma for each primitive, one for each
  function, one for the dispatcher.
-/
import Dosiz.Int31

namespace Dosiz

open ByteMemory Machine Mcb PmArena

/-! ### The process globals -/

/-- The globals no DPMI service writes. -/
structure ProcessGlobals where
  processStack : List ProcessState
  childExitPending : Bool
  lastChildExit : Nat
  currentPspSeg : Nat
  currentEnvSeg : Nat
  clientCpl : Nat
  handles : Nat → Option Nat
  fds : Nat → Option Nat
  stubs : Stubs
  dpmiRing0 : Bool
  intGateBits32 : Bool

def Machine.processGlobals (m : Machine) : ProcessGlobals :=
  ⟨m.processStack, m.childExitPending, m.lastChildExit, m.currentPspSeg, m.currentEnvSeg, m.clientCpl,
    m.handles, m.fds, m.stubs, m.dpmiRing0, m.intGateBits32⟩

def ServiceFrame (m m' : Machine) : Prop := m'.processGlobals = m.processGlobals

theorem ServiceFrame.refl (m : Machine) : ServiceFrame m m := rfl

theorem ServiceFrame.trans {m m' m'' : Machine} (h₁ : ServiceFrame m m') (h₂ : ServiceFrame m' m'') :
    ServiceFrame m m'' := Eq.trans h₂ h₁

theorem ServiceFrame.processStack {m m' : Machine} (h : ServiceFrame m m') :
    m'.processStack = m.processStack := congrArg ProcessGlobals.processStack h

theorem SameHost.serviceFrame {m m' : Machine} (h : SameHost m m') : ServiceFrame m m' := by
  unfold SameHost at h
  rw [h]
  rfl

/-! ### Registers and allocators -/

theorem serviceFrame_setR16 (m : Machine) (r : Reg) (v : Nat) : ServiceFrame m (m.setR16 r v) := rfl

theorem serviceFrame_setR16s (m : Machine) (rs : List (Reg × Nat)) :
    ServiceFrame m (m.setR16s rs) := SameHost.serviceFrame (sameHost_setR16s m rs)

theorem serviceFrame_failWith (m : Machine) (code : Nat) : ServiceFrame m (failWith m code).1 :=
  serviceFrame_setR16 m _ _

theorem serviceFrame_mcbReady (m : Machine) : ServiceFrame m (mcbReady m) := by
  unfold mcbReady
  split <;> rfl

theorem serviceFrame_mcbAllocate {m : Machine} {need : Nat} {r : Machine × Nat × Nat}
    (h : mcbAllocate m need = some r) : ServiceFrame m r.1 := by
  unfold mcbAllocate at h
  dsimp only at h
  split at h
  · cases h
  · cases h
    exact (serviceFrame_mcbReady m).trans rfl

theorem serviceFrame_mcbFree (m : Machine) (s : Nat) : ServiceFrame m (mcbFree m s).1 := by
  unfold mcbFree
  split <;> rfl

theorem serviceFrame_mcbResize (m : Machine) (s n : Nat) : ServiceFrame m (mcbResize m s n).1 := by
  unfold mcbResize
  split <;> rfl

theorem serviceFrame_pmInit (m : Machine) : ServiceFrame m (pmInit m) := by
  unfold pmInit
  split <;> rfl

theorem serviceFrame_pmAlloc (m : Machine) (n : Nat) : ServiceFrame m (pmAlloc m n).1 := by
  obtain ⟨mem, busy, h⟩ := pmAlloc_frame m n
  rw [h]
  exact (serviceFrame_pmInit m).trans rfl

theorem serviceFrame_pmFree (m : Machine) (n : Nat) : ServiceFrame m (pmFree m n).1 := by
  unfold pmFree
  rfl

theorem serviceFrame_pmResize (m : Machine) (b n : Nat) : ServiceFrame m (pmResize m b n).1 := by
  obtain ⟨busy, h⟩ := pmResize_frame m b n
  rw [h]
  exact (serviceFrame_pmInit m).trans rfl

/-! ### The functions -/

/-- Every machine a service answers with is related by `R` to the one it was called in. -/
def Answers (R : Machine → Machine → Prop) (f : Machine → Reply) : Prop :=
  ∀ m r, f m = some r → R m r.1

theorem answers_succeed {f : Machine → Machine} (h : ∀ m, ServiceFrame m (f m)) :
    Answers ServiceFrame fun m => succeed (f m) := by
  intro m r hr
  cases hr
  exact h m

theorem answers_fail (code : Nat) : Answers ServiceFrame fun m => some (failWith m code) := by
  intro m r hr
  cases hr
  rfl

theorem answers_ite {c : Machine → Prop} [∀ m, Decidable (c m)] {f g : Machine → Reply}
    (hf : Answers ServiceFrame f) (hg : Answers ServiceFrame g) :
    Answers ServiceFrame fun m => if c m then f m else g m := by
  intro m r hr
  dsimp only at hr
  split at hr
  · exact hf m r hr
  · exact hg m r hr

theorem serviceFrame_installLdt (m : Machine) (idx base limit access : Nat) :
    ServiceFrame m (installLdt m idx base limit access) := rfl

theorem int31_0000_frame : Answers ServiceFrame int31_0000 := by
  intro m r h
  unfold int31_0000 at h
  dsimp only at h
  have hfold : ∀ (start access : Nat) (is : List Nat) (m' : Machine), ServiceFrame m m' →
      ServiceFrame m (is.foldl (fun r i => installLdt r (start + i) 0 0xFFFF access) m') := by
    intro start access is
    induction is with
    | nil => exact fun m' hm => hm
    | cons i is ih => exact fun m' hm => ih _ (hm.trans (serviceFrame_installLdt _ _ _ _ _))
  split_ifs at h
  · cases h
    exact serviceFrame_setR16 _ _ _
  · cases h
    exact serviceFrame_setR16 _ _ _
  · cases h
    exact (hfold _ _ _ _ (ServiceFrame.refl m)).trans (serviceFrame_setR16 _ _ _)

theorem editDesc_frame {eng : Engine} {f : Mem → Nat → Mem} {m : Machine} {r : Machine × Bool}
    (h : editDesc eng m f = some r) : ServiceFrame m r.1 := by
  unfold editDesc at h
  split_ifs at h
  · cases h
    exact serviceFrame_setR16 _ _ _
  · cases h
    have hset : ServiceFrame m { m with mem := f m.mem (bxDesc m) } := rfl
    exact hset.trans (SameHost.serviceFrame (sameHost_reloadLoadedSelector eng _ _))

theorem int31_0100_frame : Answers ServiceFrame int31_0100 := by
  intro m r h
  unfold int31_0100 at h
  split at h
  · cases h
    exact serviceFrame_failWith _ _
  · split at h
    · cases h
    · have hm := serviceFrame_mcbAllocate ‹_›
      dsimp only at h hm
      split_ifs at h
      · cases h
        exact hm.trans (serviceFrame_setR16s _ _)
      · cases h
        exact (hm.trans (serviceFrame_mcbFree _ _)).trans (serviceFrame_failWith _ _)
      · cases h
        refine (hm.trans ?_).trans (serviceFrame_setR16s _ _)
        rfl

theorem int31_0101_frame : Answers ServiceFrame int31_0101 := by
  intro m r h
  unfold int31_0101 at h
  split at h
  · cases h
    exact serviceFrame_failWith _ _
  · cases h
    exact (serviceFrame_mcbFree m _).trans rfl

theorem int31_0102_frame : Answers ServiceFrame int31_0102 := by
  intro m r h
  unfold int31_0102 at h
  split at h
  · cases h
    exact serviceFrame_failWith _ _
  · dsimp only at h
    split_ifs at h
    · cases h
      exact (serviceFrame_mcbResize _ _ _).trans (serviceFrame_setR16s _ _)
    · cases h
      exact (serviceFrame_mcbResize m _ _).trans rfl

theorem int31_0501_frame : Answers ServiceFrame int31_0501 := by
  intro m r h
  unfold int31_0501 at h
  dsimp only at h
  have hp := serviceFrame_pmAlloc m (sizeArg m)
  split_ifs at h
  · cases h
    exact serviceFrame_failWith _ _
  · cases h
    exact hp.trans (serviceFrame_setR16s _ _)
  · split at h
    · cases h
    · have hm := hp.trans (serviceFrame_mcbAllocate ‹_›)
      dsimp only at h hm
      split_ifs at h
      · cases h
        exact hm.trans (serviceFrame_setR16s _ _)
      · cases h
        exact hm.trans (serviceFrame_failWith _ _)
  · cases h
    exact hp.trans (serviceFrame_failWith _ _)

theorem int31_0502_frame : Answers ServiceFrame int31_0502 := by
  intro m r h
  unfold int31_0502 at h
  dsimp only at h
  split_ifs at h <;> cases h
  · exact serviceFrame_failWith _ _
  · exact serviceFrame_mcbFree _ _
  · exact (serviceFrame_mcbFree _ _).trans (serviceFrame_failWith _ _)
  · exact serviceFrame_pmFree _ _
  · exact (serviceFrame_pmFree _ _).trans (serviceFrame_failWith _ _)

theorem int31_0503_frame : Answers ServiceFrame int31_0503 := by
  intro m r h
  unfold int31_0503 at h
  dsimp only at h
  split_ifs at h <;> cases h
  · exact serviceFrame_failWith _ _
  · exact serviceFrame_failWith _ _
  · exact serviceFrame_failWith _ _
  · exact (serviceFrame_mcbResize _ _ _).trans (serviceFrame_failWith _ _)
  · exact (serviceFrame_mcbResize _ _ _).trans (serviceFrame_setR16s _ _)
  · exact (serviceFrame_pmResize _ _ _).trans (serviceFrame_setR16s _ _)
  · exact (serviceFrame_pmResize _ _ _).trans (serviceFrame_failWith _ _)

theorem int31_0500_frame : Answers ServiceFrame int31_0500 := by
  intro m r h
  unfold int31_0500 at h
  dsimp only at h
  split at h
  · cases h
  · cases h; exact (serviceFrame_mcbReady m).trans rfl

theorem int31_0001_frame : Answers ServiceFrame int31_0001 := by
  intro m r h
  unfold int31_0001 at h
  split at h <;> cases h <;> rfl

theorem int31_0002_frame : Answers ServiceFrame int31_0002 :=
  answers_ite (answers_succeed fun _ => rfl)
    (answers_ite (answers_fail _) (answers_succeed fun _ => rfl))

theorem int31_0006_frame : Answers ServiceFrame int31_0006 :=
  answers_ite (answers_fail _) (answers_succeed fun _ => rfl)

theorem int31_000A_frame : Answers ServiceFrame int31_000A :=
  answers_ite (answers_fail _) (answers_ite (answers_fail _) (answers_succeed fun _ => rfl))

theorem int31_000B_frame : Answers ServiceFrame int31_000B :=
  answers_ite (answers_fail _) (answers_succeed fun _ => rfl)

theorem int31_000D_frame : Answers ServiceFrame int31_000D :=
  answers_ite (answers_fail _) (answers_ite (answers_fail _) (answers_succeed fun _ => rfl))

theorem int31_0202_frame : Answers ServiceFrame int31_0202 :=
  answers_ite (answers_fail _) (answers_succeed fun _ => rfl)

theorem int31_0203_frame : Answers ServiceFrame int31_0203 :=
  answers_ite (answers_fail _) (answers_succeed fun _ => rfl)

theorem int31_0303_frame : Answers ServiceFrame int31_0303 := by
  intro m r h
  unfold int31_0303 at h
  split at h <;> cases h <;> rfl

theorem int31_0304_frame : Answers ServiceFrame int31_0304 := by
  intro m r h
  unfold int31_0304 at h
  dsimp only at h
  split at h <;> cases h <;> rfl

theorem int31_0400_frame : Answers ServiceFrame int31_0400 := fun m r h => by cases h; rfl

theorem int31_0401_frame : Answers ServiceFrame int31_0401 := fun m r h => by cases h; rfl

theorem int31_0003_frame : Answers ServiceFrame int31_0003 := fun m r h => by cases h; rfl

theorem int31_0305_frame : Answers ServiceFrame int31_0305 := fun m r h => by cases h; rfl

theorem int31_0306_frame : Answers ServiceFrame int31_0306 := fun m r h => by cases h; rfl

theorem int31_0604_frame : Answers ServiceFrame int31_0604 := fun m r h => by cases h; rfl

theorem int31_0204_frame : Answers ServiceFrame int31_0204 := fun m r h => by cases h; rfl

theorem int31_0205_frame : Answers ServiceFrame int31_0205 := fun m r h => by cases h; rfl

theorem int31_0200_frame : Answers ServiceFrame int31_0200 := fun m r h => by cases h; rfl

theorem int31_0201_frame : Answers ServiceFrame int31_0201 := fun m r h => by cases h; rfl

theorem int31_0506_frame : Answers ServiceFrame int31_0506 := fun m r h => by cases h; rfl

theorem int31_0508_frame : Answers ServiceFrame int31_0508 := fun m r h => by cases h; rfl

theorem int31_0B00_frame : Answers ServiceFrame int31_0B00 := fun m r h => by cases h; rfl

theorem int31_0E00_frame : Answers ServiceFrame int31_0E00 := fun m r h => by cases h; rfl

theorem int31_0007_frame (eng : Engine) : Answers ServiceFrame (int31_0007 eng) := by
  intro m r h
  unfold int31_0007 at h
  exact editDesc_frame h

theorem int31_0008_frame (eng : Engine) : Answers ServiceFrame (int31_0008 eng) := by
  intro m r h
  unfold int31_0008 at h
  exact editDesc_frame h

theorem int31_0009_frame (eng : Engine) : Answers ServiceFrame (int31_0009 eng) := by
  intro m r h
  unfold int31_0009 at h
  exact editDesc_frame h

theorem int31_000C_frame (eng : Engine) : Answers ServiceFrame (int31_000C eng) := by
  intro m r h
  unfold int31_000C at h
  exact editDesc_frame h

theorem int31_09_frame (new : Bool → Bool) : Answers ServiceFrame (int31_09 new) :=
  fun m r h => by cases h; rfl

/-- No function of the dispatcher touches a global outside the frame. -/
theorem int31_frame (eng : Engine) : ∀ p ∈ int31Table eng, Answers ServiceFrame p.2 := by
  have hsucceed : Answers ServiceFrame succeed := answers_succeed ServiceFrame.refl
  simp only [int31Table, List.forall_mem_cons, List.not_mem_nil, IsEmpty.forall_iff, implies_true,
    and_true]
  exact ⟨int31_0400_frame, int31_0401_frame, int31_0000_frame,
    int31_0001_frame, int31_0002_frame, int31_0003_frame, int31_0008_frame eng,
    int31_0009_frame eng, int31_000A_frame, int31_000B_frame, int31_000C_frame eng, int31_000D_frame,
    int31_0100_frame, int31_0102_frame, int31_0101_frame, int31_0202_frame, int31_0203_frame,
    int31_0305_frame, int31_0303_frame, int31_0304_frame, int31_0306_frame,
    hsucceed, hsucceed, hsucceed, hsucceed, hsucceed, hsucceed, hsucceed, int31_0B00_frame,
    int31_0B00_frame, int31_0B00_frame, int31_0B00_frame, int31_0604_frame, hsucceed,
    int31_0204_frame, int31_0205_frame, int31_09_frame _, int31_09_frame _, int31_09_frame _,
    int31_0200_frame, int31_0201_frame, int31_0500_frame, int31_0006_frame, int31_0007_frame eng,
    int31_0501_frame, int31_0502_frame, int31_0503_frame, int31_0506_frame, hsucceed,
    int31_0508_frame, int31_0508_frame, int31_0E00_frame, hsucceed⟩

theorem forall_dispatch {P : (Machine → Reply) → Prop} {table : List (Nat × (Machine → Reply))}
    {d : Machine → Reply} (h : ∀ p ∈ table, P p.2) (hd : P d) (ax : Nat) :
    P ((table.lookup ax).getD d) := by
  induction table with
  | nil => exact hd
  | cons p table ih =>
    rw [List.lookup_cons]
    split
    · exact h p List.mem_cons_self
    · exact ih fun q hq => h q (List.mem_cons_of_mem p hq)

theorem dosizInt31_frame {eng : Engine} {m m' : Machine} (h : dosizInt31 eng m = some m') :
    ServiceFrame m m' := by
  have hf := forall_dispatch (int31_frame eng) (answers_fail 0x8001) m.ax
  simp only [dosizInt31, finish, Option.map_eq_some_iff] at h
  obtain ⟨r, hr, rfl⟩ := h
  exact hf m r hr

end Dosiz
