/-
  Dosiz/Nesting.lean
  ==================
  **Nested run loops.**

  AH=4B, AX=0300, AX=0301, AX=0302 and the real-mode callbacks each start one more level
  of `DOSBOX_RunMachine` and finish when that level's loop breaks.  A callback that
  answers `CBRET_STOP` breaks the innermost loop only; the handler below then runs its
  second half and answers `CBRET_STOP` in turn, or lets the guest go on.

  The state of a program tree is the machine, the handlers that wait in their second
  half, and whether the innermost loop is about to break (`g_cb_stop`).
-/
import Dosiz.DpmiBlocks
import Dosiz.DpmiEntry
import Dosiz.Exec
import Dosiz.Handles
import Dosiz.Transition

namespace Dosiz.Nesting

open ByteMemory Machine Transition

/-! ### Levels -/

/-- A handler waiting for its run loop, with its locals. -/
inductive Level where
  | exec (saved : ExecSaved)
  | realMode (svc : RmService) (saved : RmSaved)
  | callback (saved : RmcbSaved)

/-- The second half of the handler; `true` is `CBRET_STOP`. -/
def Level.finish (eng : Engine) (m : Machine) : Level → Machine × Bool
  | .exec saved => execEnd eng saved m
  | .realMode svc saved => leaveRm eng svc saved m
  | .callback saved => leaveRmcb eng saved m

def Level.isExec : Level → Bool
  | .exec _ => true
  | _ => false

/-- The level is an AX=0300 call. -/
def Level.isSimulateInt : Level → Bool
  | .realMode .simulateInt _ => true
  | _ => false

structure State where
  m : Machine
  levels : List Level
  stop : Bool

/-! ### Steps -/

/-- The globals of the DPMI host and of the process tree.  Guest code and the services of DOS that
    are none of the events below leave them alone. -/
structure SameHostState (m m' : Machine) : Prop where
  ldtInUse : m'.ldtInUse = m.ldtInUse
  seg2descCache : m'.seg2descCache = m.seg2descCache
  clientCpl : m'.clientCpl = m.clientCpl
  pmExc : m'.pmExc = m.pmExc
  rmCallbacks : m'.rmCallbacks = m.rmCallbacks
  pmBusy : m'.pmBusy = m.pmBusy
  handles : m'.handles = m.handles
  fds : m'.fds = m.fds
  stubs : m'.stubs = m.stubs
  dpmiRing0 : m'.dpmiRing0 = m.dpmiRing0
  processStack : m'.processStack = m.processStack
  childExitPending : m'.childExitPending = m.childExitPending
  lastChildExit : m'.lastChildExit = m.lastChildExit

/-- What happens at the innermost level.  `other` is guest code and any service that does not
    touch the DPMI host's or the process tree's globals; `host` is another part of the host at work
    on the arenas. -/
inductive Event where
  | other (m' : Machine)
  | memory (svc : Machine → Reply)
  | host (u : HostUse)
  | files (call : FileCall)
  | int31
  | dpmiEntry
  | enterRm (svc : RmService)
  | enterRmcb (idx : Nat)
  | exec (host : Host)
  | exit
  | stopCallback
  | unwind

/-- INT 21h AH=48, AH=49 and AH=4A. -/
def dosMemory : List (Machine → Reply) := [int21_48, int21_49, int21_4A]

def step (eng : Engine) (s : State) (e : Event) (s' : State) : Prop :=
  match e with
  | .unwind =>
    ∃ l rest, s.stop = true ∧ s.levels = l :: rest ∧
      s' = ⟨(l.finish eng s.m).1, rest, (l.finish eng s.m).2⟩
  | .other m' => s.stop = false ∧ SameHostState s.m m' ∧ s' = { s with m := m' }
  | .memory svc =>
    s.stop = false ∧ svc ∈ dosMemory ∧ ∃ m', finish (svc s.m) = some m' ∧ s' = { s with m := m' }
  | .host u => s.stop = false ∧ ∃ m', u.apply s.m = some m' ∧ s' = { s with m := m' }
  | .files call =>
    s.stop = false ∧ s' = { s with m := setCf (call.serve s.m).1 (call.serve s.m).2 }
  | .int31 =>
    s.stop = false ∧ runsGuest s.m.ax = false ∧
      ∃ m', dosizInt31 eng s.m = some m' ∧ s' = { s with m := m' }
  | .dpmiEntry => s.stop = false ∧ s' = { s with m := dosizDpmiEntry eng s.m }
  | .enterRm svc =>
    s.stop = false ∧ s' = ⟨enterRm eng svc s.m, .realMode svc (saveRm s.m) :: s.levels, false⟩
  | .enterRmcb idx =>
    ∃ cb, s.stop = false ∧ s.m.rmCallbacks[idx]? = some cb ∧ cb.allocated = true ∧
      s' = ⟨enterRmcb eng cb s.m, .callback (saveRmcb cb s.m) :: s.levels, false⟩
  | .exec host =>
    ∃ m' r, s.stop = false ∧ int21_4B eng host s.m = some (m', r) ∧
      s' = ⟨m', (r.map Level.exec).toList ++ s.levels, false⟩
  | .exit => s.stop = false ∧ s.m.processStack ≠ [] ∧ s' = ⟨int21_4C s.m, s.levels, true⟩
  | .stopCallback => s.stop = false ∧ s.levels ≠ [] ∧ s' = { s with stop := true }

/-- The loop of the topmost level breaks. -/
theorem unwind_eq {eng : Engine} {s s' : State} {l : Level} {rest : List Level}
    (h : step eng s .unwind s') (hl : s.levels = l :: rest) :
    s' = ⟨(l.finish eng s.m).1, rest, (l.finish eng s.m).2⟩ := by
  obtain ⟨l', rest', -, hl', rfl⟩ := h
  obtain ⟨rfl, rfl⟩ := List.cons.inj (hl.symm.trans hl')
  rfl

end Dosiz.Nesting
