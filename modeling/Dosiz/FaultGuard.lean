/-
  Dosiz/FaultGuard.lean
  =====================
  **The recursion guard of the exception dispatcher** (`dosiz_pm_exc_dispatch`,
  `dosiz_pm_exc_ret` of `bridge.cc`).

  The guard counts faults at the same CS:EIP.  A fault anywhere else starts the count anew; the
  return of a handler does not.  So it stops the sixth of six faults at one address also when
  the handler has repaired and left each of the five before (`guard_delivers_iff`).
-/
import Dosiz.PmException
import Dosiz.DpmiEntry

namespace Dosiz.PmException

open ByteMemory Machine Transition

/-- How many of the last faults were at `a`. -/
def streak (a : Nat × Nat) (seen : List (Nat × Nat)) : Nat := (seen.takeWhile (· = a)).length

/-- CS:EIP of the fault whose frame is on the ring-0 stack. -/
def faultAt (m : Machine) (vec : Nat) : Nat × Nat := ((pushedFrame m vec).cs, (pushedFrame m vec).eip)

/-- The CPU has pushed the frame of a fault at ring 3. -/
structure ClientFault (m : Machine) (vec : Nat) : Prop where
  selector : (pushedFrame m vec).cs < 65536
  rpl : (pushedFrame m vec).cs % 4 ≠ 0

/-- Nothing but the dispatcher writes the variables of its guard. -/
structure SameGuard (m m' : Machine) : Prop where
  count : m'.faultCount = m.faultCount
  eip : m'.lastFaultEip = m.lastFaultEip
  cs : m'.lastFaultCs = m.lastFaultCs

/-- A history keeps, beside the machine, where the ring-3 faults were (the last one first), and
    whether the handling of the last one is over. -/
structure FaultState where
  m : Machine
  seen : List (Nat × Nat)
  returned : Bool

def FaultState.start (m : Machine) : FaultState := ⟨m, [], true⟩

/-- What happens in a history: anything else, a fault, a handler's far return. -/
inductive FaultEvent where
  | other (m' : Machine)
  | fault (vec : Nat)
  | ret

def faultStep (eng : Engine) (s : FaultState) (e : FaultEvent) (t : FaultState) : Prop :=
  match e with
  | .other m' => SameGuard s.m m' ∧ t = ⟨m', s.seen, s.returned⟩
  | .fault vec => ClientFault s.m vec ∧
      t = ⟨(pmExcDispatch s.m vec).1, faultAt s.m vec :: s.seen, (pmExcDispatch s.m vec).2⟩
  | .ret => t = ⟨pmExcRet eng (farReturn s.m), s.seen, true⟩

/-- The guard as the history has it. -/
def GuardKnows (m : Machine) : List (Nat × Nat) → Prop
  | [] => m.faultCount = 0 ∧ m.lastFaultCs = 0
  | a :: rest => m.faultCount = streak a rest ∧ m.lastFaultCs = a.1 ∧ m.lastFaultEip = a.2

section Guard

variable {eng : Engine} {m m' : Machine} {vec : Nat} {s t : FaultState} {a b : Nat × Nat}
  {seen : List (Nat × Nat)}

theorem streak_self (a : Nat × Nat) (seen : List (Nat × Nat)) : streak a (a :: seen) = streak a seen + 1 := by
  simp [streak]

theorem streak_other (h : b ≠ a) (seen : List (Nat × Nat)) : streak a (b :: seen) = 0 := by
  simp [streak, h]

theorem GuardKnows.same (h : GuardKnows m seen) (hs : SameGuard m m') : GuardKnows m' seen := by
  cases seen with
  | nil => exact ⟨hs.count.trans h.1, hs.cs.trans h.2⟩
  | cons a rest => exact ⟨hs.count.trans h.1, hs.cs.trans h.2.1, hs.eip.trans h.2.2⟩

/-- The guard counts the streak, and gives up at five. -/
theorem faultGuard_knows (h : GuardKnows m seen) (hlt : a.1 < 65536) (hrpl : a.1 % 4 ≠ 0) :
    GuardKnows (faultGuard m a.1 a.2).1 (a :: seen) ∧
      ((faultGuard m a.1 a.2).2 = true ↔ 5 ≤ streak a seen) := by
  have hnew : a.1 % 65536 = a.1 := Nat.mod_eq_of_lt hlt
  cases seen with
  | nil =>
    obtain ⟨-, hcs⟩ := h
    have hne : ¬ (a.1 = m.lastFaultCs ∧ a.2 = m.lastFaultEip) := by
      rintro ⟨hsame, -⟩
      rw [hcs] at hsame
      rw [hsame] at hrpl
      exact hrpl rfl
    rw [faultGuard, if_neg hne]
    exact ⟨⟨rfl, hnew, rfl⟩, by simp [streak]⟩
  | cons b rest =>
    obtain ⟨hcount, hcs, heip⟩ := h
    by_cases hsame : b = a
    · subst hsame
      rw [faultGuard, if_pos ⟨hcs.symm, heip.symm⟩]
      refine ⟨⟨?_, hcs, heip⟩, ?_⟩
      · rw [streak_self]
        exact congrArg (· + 1) hcount
      · rw [streak_self, ← hcount]
        simp only [decide_eq_true_eq]
        exact Iff.rfl
    · have hne : ¬ (a.1 = m.lastFaultCs ∧ a.2 = m.lastFaultEip) := by
        rintro ⟨h₁, h₂⟩
        exact hsame (Prod.ext (hcs.symm.trans h₁.symm) (heip.symm.trans h₂.symm))
      rw [faultGuard, if_neg hne, streak_other hsame]
      refine ⟨⟨?_, hnew, rfl⟩, by simp⟩
      rw [streak_other hsame]

theorem sameGuard_enterHandler (m : Machine) (vec : Nat) (f : Interrupted) :
    SameGuard m (enterHandler m vec f) := by
  unfold enterHandler
  dsimp only
  split <;> exact ⟨rfl, rfl, rfl⟩

theorem sameGuard_of_globals (h : SameGlobals m m') : SameGuard m m' := by
  rw [h.eq]
  exact ⟨rfl, rfl, rfl⟩

theorem sameGlobals_setStack (m : Machine) (v : Nat) : SameGlobals m (setStack m v) := by
  unfold setStack
  split
  · exact sameGlobals_setR32 m .esp v
  · exact sameGlobals_setR16 m .esp v

/-- The return of a handler does not reset the guard. -/
theorem sameGuard_ret (eng : Engine) (m : Machine) : SameGuard m (pmExcRet eng (farReturn m)) := by
  refine sameGuard_of_globals ?_
  unfold pmExcRet layIretd farReturn
  dsimp only
  refine SameGlobals.trans ?_ (sameGlobals_setStack _ _)
  refine SameGlobals.trans ?_ (sameGlobals_setMem _ _)
  exact (sameGlobals_setStack _ _).trans (sameGlobals_cpuSetSegGeneral eng _ _ _)

theorem pushedCs_eq (m : Machine) (vec : Nat) :
    readd m.mem (lin (m.segPhys .ss + m.r32 .esp + if pmExcHasErrCode vec then 8 else 4)) =
      (pushedFrame m vec).cs := by
  unfold pushedFrame
  split <;> rfl

/-- One fault: it is delivered where there is a handler and the streak is short. -/
theorem pmExcDispatch_guard (h : GuardKnows m seen) (hf : ClientFault m vec) :
    GuardKnows (pmExcDispatch m vec).1 (faultAt m vec :: seen) ∧
      ((pmExcDispatch m vec).2 = false ↔ streak (faultAt m vec) seen < 5 ∧ (m.pmExc vec).sel ≠ 0) := by
  obtain ⟨hknows, hstop⟩ := faultGuard_knows (a := faultAt m vec) h hf.selector hf.rpl
  have hhandler : ((faultGuard m (pushedFrame m vec).cs (pushedFrame m vec).eip).1.pmExc vec).sel =
      (m.pmExc vec).sel := by
    unfold faultGuard
    split <;> rfl
  have hring3 : ¬ (pushedFrame m vec).cs % 65536 % 4 = 0 := by
    rw [Nat.mod_eq_of_lt hf.selector]
    exact hf.rpl
  unfold pmExcDispatch
  dsimp only
  rw [pushedCs_eq, if_neg hring3]
  split_ifs with hloop hnone
  · exact ⟨hknows, iff_of_false (by decide) fun hgo => absurd (hstop.mp hloop) (by omega)⟩
  · rw [hhandler] at hnone
    exact ⟨hknows, iff_of_false (by decide) fun hgo => hgo.2 hnone⟩
  · rw [hhandler] at hnone
    refine ⟨hknows.same (sameGuard_enterHandler _ _ _), iff_of_true rfl ⟨?_, hnone⟩⟩
    exact Nat.lt_of_not_le fun hlong => hloop (hstop.mpr hlong)

theorem faultStep_knows {e : FaultEvent} (h : GuardKnows s.m s.seen) (hs : faultStep eng s e t) :
    GuardKnows t.m t.seen := by
  cases e with
  | other m' =>
    obtain ⟨hsame, rfl⟩ := hs
    exact h.same hsame
  | fault vec =>
    obtain ⟨hf, rfl⟩ := hs
    exact (pmExcDispatch_guard h hf).1
  | ret =>
    obtain rfl := hs
    exact h.same (sameGuard_ret eng s.m)

/-- A fault that arrives when the handling of the one before is over goes to the handler. -/
def Delivered (s : FaultState) (vec : Nat) : Prop :=
  s.returned = true → (pmExcDispatch s.m vec).2 = false

/-- **The guard.**  In every history of faults, the next fault, for which there is a handler, is
    delivered as the guard promises exactly where fewer than five faults at its CS:EIP came right
    before, or the handling of the one before is not over. -/
theorem guard_delivers_iff {m₀ : Machine} (hcount : m₀.faultCount = 0) (hcs : m₀.lastFaultCs = 0)
    {es : List FaultEvent} (hrun : Run (faultStep eng) (.start m₀) es s) (hf : ClientFault s.m vec)
    (hhandler : (s.m.pmExc vec).sel ≠ 0) :
    Delivered s vec ↔ s.returned = false ∨ streak (faultAt s.m vec) s.seen < 5 := by
  have hstart : GuardKnows m₀ [] := ⟨hcount, hcs⟩
  have hknows : GuardKnows s.m s.seen :=
    hrun.invariant (P := fun s => GuardKnows s.m s.seen) (fun _ _ _ => faultStep_knows) hstart
  obtain ⟨-, hgo⟩ := pmExcDispatch_guard hknows hf
  constructor
  · intro h
    cases hr : s.returned with
    | false => exact Or.inl rfl
    | true => exact Or.inr (hgo.mp (h hr)).1
  · rintro (hopen | hshort) hr
    · rw [hopen] at hr
      cases hr
    · exact hgo.mpr ⟨hshort, hhandler⟩

end Guard

/-! ### Six faults at one address -/

/-- A divide fault of the client at 000F:0100, with a handler installed, after `n` others there. -/
def faulting (n : Nat) : Machine :=
  { bootMachine with
    mem := writed (writed bootMachine.mem 0 0x100) 4 0x0F
    pmExc := fun _ => ⟨0x0F, 0x200⟩
    cpu := zeroCpu
    faultCount := n - 1
    lastFaultEip := if n = 0 then 0 else 0x100
    lastFaultCs := if n = 0 then 0 else 0x0F }

/-- The history of that fault, each time handled. -/
def faultedAt (n : Nat) : FaultState := ⟨faulting n, List.replicate n (0x0F, 0x100), true⟩

theorem faultAt_faulting (n : Nat) : faultAt (faulting n) 0 = (0x0F, 0x100) := by
  have hsame : faultAt (faulting n) 0 = faultAt (faulting 0) 0 := rfl
  rw [hsame]
  decide +kernel

theorem clientFault_faulting (n : Nat) : ClientFault (faulting n) 0 := by
  have hcs : (pushedFrame (faulting n) 0).cs = 0x0F := congrArg Prod.fst (faultAt_faulting n)
  exact ⟨by rw [hcs]; decide, by rw [hcs]; decide⟩

theorem streak_replicate (a : Nat × Nat) (n : Nat) : streak a (List.replicate n a) = n := by
  induction n with
  | zero => rfl
  | succ n ih => rw [List.replicate_succ, streak_self, ih]

theorem guardKnows_faulting (n : Nat) : GuardKnows (faulting n) (List.replicate n (0x0F, 0x100)) := by
  cases n with
  | zero => exact ⟨rfl, rfl⟩
  | succ n => exact ⟨(streak_replicate _ n).symm, rfl, rfl⟩

theorem GuardKnows.unique {m m' : Machine} {a : Nat × Nat} {seen : List (Nat × Nat)}
    (h : GuardKnows m (a :: seen)) (h' : GuardKnows m' (a :: seen)) : SameGuard m m' :=
  ⟨h'.1.trans h.1.symm, h'.2.2.trans h.2.2.symm, h'.2.1.trans h.2.1.symm⟩

/-- The fault, its handler's return, and the fault again. -/
theorem run_refault (n : Nat) : Run (faultStep tableEngine) (faultedAt n)
    [.fault 0, .ret, .other (faulting (n + 1))] (faultedAt (n + 1)) := by
  have hf := clientFault_faulting n
  obtain ⟨hknows, -⟩ := pmExcDispatch_guard (guardKnows_faulting n) hf
  have hseen : faultAt (faulting n) 0 :: List.replicate n (0x0F, 0x100) =
      List.replicate (n + 1) (0x0F, 0x100) := by
    rw [faultAt_faulting, List.replicate_succ]
  rw [hseen] at hknows
  generalize hd : pmExcDispatch (faulting n) 0 = d at hknows
  refine .cons (t := ⟨d.1, List.replicate (n + 1) (0x0F, 0x100), d.2⟩) ⟨hf, ?_⟩ ?_
  · rw [← hd, ← hseen]
    rfl
  · refine .cons rfl (.single ⟨?_, rfl⟩)
    exact (hknows.same (sameGuard_ret tableEngine d.1)).unique (guardKnows_faulting (n + 1))

theorem run_faults (n : Nat) : ∃ es, Run (faultStep tableEngine) (.start (faulting 0)) es (faultedAt n) := by
  induction n with
  | zero => exact ⟨[], .nil _⟩
  | succ n ih =>
    obtain ⟨es, hrun⟩ := ih
    exact ⟨_, hrun.append (run_refault n)⟩

theorem guard_delivers_iff_fifth : Delivered (faultedAt 4) 0 := by
  obtain ⟨es, hrun⟩ := run_faults 4
  have hshort : streak (faultAt (faulting 4) 0) (List.replicate 4 (0x0F, 0x100)) < 5 := by
    rw [faultAt_faulting]
    decide
  exact (guard_delivers_iff rfl rfl hrun (clientFault_faulting 4) (by decide)).mpr (Or.inr hshort)

/-- The sixth fault at one address is not delivered, although the handler has returned from all
    five before. -/
theorem sixth_fault_stops : ∃ es, Run (faultStep tableEngine) (.start (faulting 0)) es (faultedAt 5) ∧
    ClientFault (faulting 5) 0 ∧ ((faulting 5).pmExc 0).sel ≠ 0 ∧ ¬ Delivered (faultedAt 5) 0 := by
  obtain ⟨es, hrun⟩ := run_faults 5
  refine ⟨es, hrun, clientFault_faulting 5, by decide, fun h => ?_⟩
  obtain ⟨-, hgo⟩ := pmExcDispatch_guard (guardKnows_faulting 5) (clientFault_faulting 5)
  have hshort := (hgo.mp (h rfl)).1
  rw [faultAt_faulting] at hshort
  exact absurd hshort (by decide)

end Dosiz.PmException
