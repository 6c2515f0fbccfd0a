/-
  Dosiz/RunLoop.lean
  ==================
  **The run loop and its callbacks** (`DOSBOX_RunMachine` and `cpu_step` of `dosbox_compat.cc`).

  The run loop is a recursion of the host: a callback that runs guest code calls
  `DOSBOX_RunMachine` again, with one flag (`g_cb_stop`) and one depth (`g_run_depth`) for all of
  them.  A loop breaks at the shutdown flag, at a halted CPU and behind a callback that answered
  `CBRET_STOP`; nothing on the host's side clears `halted`, so an HLT inside a nested loop breaks the
  loops below it one after the other.  `runMachine_iff`: a call from inside a run loop returns just
  where the levels of `Program` say, each of which is one call that has not returned.
-/
import Dosiz.DeclinedFaults
import Dosiz.LoopStack

namespace Dosiz.RunLoop

open Machine Nesting Transition

/-! ### The loop of the source -/

/-- The guest's machine, `s_exit_code`, `shutdown_requested` and `g_cpu->halted`. -/
structure Guest where
  m : Machine
  exitCode : Nat
  shutdown : Bool
  halted : Bool

abbrev Act := LoopStack.Act Guest Level

def Guest.setM (g : Guest) (m : Machine) : Guest := { g with m := m }

/-- `cpu_step`: an instruction, or a callback up to its return or to its `DOSBOX_RunMachine`.  Only an
    instruction can halt the CPU. -/
def cpuStep (eng : Engine) (g : Guest) (e : ProgramEvent) (a : Act) : Prop :=
  match e with
  | .guest (.other m') => SameHostState g.m m' ∧ ∃ b, a = .done { g.setM m' with halted := b } false
  | .guest (.memory svc) => svc ∈ dosMemory ∧ ∃ m', finish (svc g.m) = some m' ∧ a = .done (g.setM m') false
  | .guest (.host u) => ∃ m', u.apply g.m = some m' ∧ a = .done (g.setM m') false
  | .guest (.files call) => a = .done (g.setM (setCf (call.serve g.m).1 (call.serve g.m).2)) false
  | .guest .int31 => runsGuest g.m.ax = false ∧ ∃ m', dosizInt31 eng g.m = some m' ∧ a = .done (g.setM m') false
  | .guest .dpmiEntry => a = .done (g.setM (dosizDpmiEntry eng g.m)) false
  | .guest (.enterRm svc) => a = .nest (g.setM (enterRm eng svc g.m)) (.realMode svc (saveRm g.m))
  | .guest (.enterRmcb idx) => ∃ cb, g.m.rmCallbacks[idx]? = some cb ∧ cb.allocated = true ∧
      a = .nest (g.setM (enterRmcb eng cb g.m)) (.callback (saveRmcb cb g.m))
  | .guest (.exec host) => ∃ m' r, int21_4B eng host g.m = some (m', r) ∧
      a = r.elim (.done (g.setM m') false) fun saved => .nest (g.setM m') (.exec saved)
  | .guest .exit => g.m.processStack ≠ [] ∧ a = .done (g.setM (int21_4C g.m)) true
  | .guest .stopCallback => a = .done g true
  | .fault f => a = .done { g.setM (f.handle g.m).1 with
      exitCode := if f.terminates g.m then 1 else g.exitCode
      shutdown := f.terminates g.m } (f.handle g.m).2
  | .quit => g.m.processStack = [] ∧ a = .done { g with exitCode := g.m.r8l .eax, shutdown := true } true
  | .guest .unwind | .unwind => False

/-- The callback behind its `DOSBOX_RunMachine`. -/
def resume (eng : Engine) (l : Level) (g : Guest) : Act := .done (g.setM (l.finish eng g.m).1) (l.finish eng g.m).2

/-- What all run loops share. -/
structure Host where
  guest : Guest
  cbStop : Bool
  runDepth : Nat

/-- `if (r == CBRET_STOP) g_cb_stop = true;` -/
def Host.answered (h : Host) (r : Bool) : Host := if r then { h with cbStop := true } else h

/-- Between two steps the outermost loop delivers hardware interrupts, which may wake a halted CPU, and
    fires the ticks, one of which looks whether the window has been closed. -/
def Between (depth : Nat) (g g' : Guest) : Prop :=
  if depth = 1 then
    SameHostState g.m g'.m ∧
      ((g'.exitCode = g.exitCode ∧ g'.shutdown = g.shutdown) ∨ (g'.exitCode = 0 ∧ g'.shutdown = true))
  else g' = g

inductive HostTask where
  /-- The head of the `for (;;)` of `DOSBOX_RunMachine`. -/
  | loop (h : Host)
  | callback (h : Host) (a : Act)

/-- The host's code runs to the end of the task; a callback returns `CBRET_STOP` or not. -/
inductive Exec (eng : Engine) : HostTask → Host → Bool → Prop where
  | shutdown {h : Host} (hs : h.guest.shutdown = true) : Exec eng (.loop h) h true
  | halted {h : Host} (hs : h.guest.shutdown = false) (hh : h.guest.halted = true) : Exec eng (.loop h) h true
  | breaks {h t : Host} {e : ProgramEvent} {a : Act} {r : Bool} (hs : h.guest.shutdown = false)
      (hh : h.guest.halted = false) (ha : cpuStep eng h.guest e a) (hc : Exec eng (.callback h a) t r)
      (hb : (t.answered r).cbStop = true) : Exec eng (.loop h) { t with cbStop := false } true
  | goesOn {h t u : Host} {e : ProgramEvent} {a : Act} {r : Bool} {g : Guest} (hs : h.guest.shutdown = false)
      (hh : h.guest.halted = false) (ha : cpuStep eng h.guest e a) (hc : Exec eng (.callback h a) t r)
      (hb : (t.answered r).cbStop = false) (hg : Between t.runDepth t.guest g)
      (hl : Exec eng (.loop { t with guest := g }) u true) : Exec eng (.loop h) u true
  | done (h : Host) (g : Guest) (r : Bool) : Exec eng (.callback h (.done g r)) { h with guest := g } r
  | nest {h t u : Host} {g : Guest} {l : Level} {r : Bool}
      (hl : Exec eng (.loop { h with guest := g, runDepth := h.runDepth + 1 }) t true)
      (hc : Exec eng (.callback { t with runDepth := t.runDepth - 1 } (resume eng l t.guest)) u r) :
      Exec eng (.callback h (.nest g l)) u r

/-- A call of `DOSBOX_RunMachine` returns. -/
def RunMachine (eng : Engine) (h h' : Host) : Prop :=
  ∃ t, Exec eng (.loop { h with runDepth := h.runDepth + 1 }) t true ∧ h' = { t with runDepth := t.runDepth - 1 }

/-! ### One flag for all loops -/

/-- What breaks a loop at its head. -/
def Guest.ended (g : Guest) : Bool := g.shutdown || g.halted

/-- The recursion without its globals. -/
def code (eng : Engine) : LoopStack.Code Guest Level ProgramEvent where
  ended g := g.ended = true
  act := cpuStep eng
  resume := resume eng

variable {eng : Engine}

theorem Guest.ended_eq_false {g : Guest} : g.ended = false ↔ g.shutdown = false ∧ g.halted = false := by
  rw [Guest.ended, Bool.or_eq_false_iff]

theorem not_ended {g : Guest} : ¬ (code eng).ended g ↔ g.shutdown = false ∧ g.halted = false := by
  rw [← Guest.ended_eq_false, ← Bool.not_eq_true]
  exact Iff.rfl

def HostTask.host : HostTask → Host
  | .loop h => h
  | .callback h _ => h

def HostTask.task : HostTask → LoopStack.Task Guest Level
  | .loop h => .loop h.guest
  | .callback _ a => .code a

/-- Inside a nested loop the flag is down at the head of every loop, and the depth comes back. -/
theorem Exec.eval {task : HostTask} {u : Host} {r : Bool} (h : Exec eng task u r)
    (hflag : task.host.cbStop = false) (hdepth : 1 ≤ task.host.runDepth)
    (hloop : ∀ h, task = .loop h → 2 ≤ h.runDepth) :
    LoopStack.Eval (code eng) task.task u.guest r ∧ u.cbStop = false ∧ u.runDepth = task.host.runDepth := by
  induction h with
  | shutdown hs => exact ⟨.ended (Bool.or_eq_true_iff.mpr (.inl hs)), hflag, rfl⟩
  | halted _ hh => exact ⟨.ended (Bool.or_eq_true_iff.mpr (.inr hh)), hflag, rfl⟩
  | @breaks h t e a r hs hh ha _ hb ih =>
    obtain ⟨heval, ht, hd⟩ := ih hflag hdepth fun _ h => by cases h
    cases r with
    | true => exact ⟨.stop (not_ended.mpr ⟨hs, hh⟩) ha heval, rfl, hd⟩
    | false => exact absurd hb (by simp [Host.answered, ht])
  | @goesOn h t u e a r g hs hh ha _ hb hg _ ih ihl =>
    obtain ⟨heval, ht, hd⟩ := ih hflag hdepth fun _ h => by cases h
    have hd : t.runDepth = h.runDepth := hd
    have htwo : 2 ≤ h.runDepth := hloop h rfl
    have hsame : g = t.guest := by
      rw [Between, if_neg (by omega)] at hg
      exact hg
    obtain ⟨hnext, hu, hdu⟩ := ihl ht (show 1 ≤ t.runDepth by omega) fun h' heq => by
      cases heq
      exact (show 2 ≤ t.runDepth by omega)
    rw [HostTask.task, hsame] at hnext
    cases r with
    | true => exact absurd hb (by simp [Host.answered])
    | false => exact ⟨.next (not_ended.mpr ⟨hs, hh⟩) ha heval hnext, hu, hdu.trans hd⟩
  | done h g r => exact ⟨.done g r, hflag, rfl⟩
  | @nest h t u g l r _ _ ihl ih =>
    have hd : 1 ≤ h.runDepth := hdepth
    obtain ⟨heval, ht, hdt⟩ := ihl hflag (Nat.le_add_left 1 _) fun h' heq => by
      cases heq
      exact Nat.succ_le_succ hd
    have hdt : t.runDepth = h.runDepth + 1 := hdt
    have hback : t.runDepth - 1 = h.runDepth := by omega
    obtain ⟨hrest, hu, hdu⟩ := ih ht (show 1 ≤ t.runDepth - 1 by omega) fun _ h => by cases h
    exact ⟨.nest heval hrest, hu, hdu.trans hback⟩

/-- A task of the recursion inside a nested loop, with the flag down. -/
def atDepth (d : Nat) (g₀ : Guest) : LoopStack.Task Guest Level → HostTask
  | .loop g => .loop ⟨g, false, d + 1⟩
  | .code a => .callback ⟨g₀, false, d + 1⟩ a

theorem exec_of_eval {task : LoopStack.Task Guest Level} {g : Guest} {r : Bool}
    (h : LoopStack.Eval (code eng) task g r) :
    ∀ d g₀, 1 ≤ d → Exec eng (atDepth d g₀ task) ⟨g, false, d + 1⟩ r := by
  induction h with
  | @ended g hends =>
    intro d _ _
    cases hs : g.shutdown with
    | true => exact .shutdown hs
    | false => exact .halted hs (by simpa [code, Guest.ended, hs] using hends)
  | @stop g₁ g e a hover ha _ ih =>
    intro d g₀ hd
    obtain ⟨hs, hh⟩ := not_ended.mp hover
    exact Exec.breaks (h := ⟨g₁, false, d + 1⟩) hs hh ha (ih d g₁ hd) rfl
  | @next g₁ g₂ g e a hover ha _ _ ih ihl =>
    intro d g₀ hd
    obtain ⟨hs, hh⟩ := not_ended.mp hover
    refine Exec.goesOn (h := ⟨g₁, false, d + 1⟩) (g := g₂) hs hh ha (ih d g₁ hd) rfl ?_ (ihl d g₁ hd)
    rw [Between, if_neg (show ¬ d + 1 = 1 by omega)]
  | done g r => exact fun d g₀ _ => Exec.done ⟨g₀, false, d + 1⟩ g r
  | @nest g₁ g₂ g l r _ _ ihl ih =>
    intro d g₀ hd
    exact Exec.nest (h := ⟨g₀, false, d + 1⟩) (ihl (d + 1) g₁ (Nat.le_add_left 1 d)) (ih d g₂ hd)

/-- A call from inside a run loop is the recursion, and leaves flag and depth as they were. -/
theorem runMachine_loop (g : Guest) (d : Nat) (h' : Host) : RunMachine eng ⟨g, false, d + 1⟩ h' ↔
    ∃ g', h' = ⟨g', false, d + 1⟩ ∧ LoopStack.Loop (code eng) g g' := by
  constructor
  · rintro ⟨t, hexec, rfl⟩
    obtain ⟨heval, ht, hd⟩ := hexec.eval rfl (Nat.le_add_left 1 _) fun h heq => by
      cases heq
      exact Nat.le_add_left 2 d
    have hd : t.runDepth = d + 2 := hd
    exact ⟨t.guest, by rw [← ht, show d + 1 = t.runDepth - 1 by omega], heval⟩
  · rintro ⟨g', rfl, hloop⟩
    exact ⟨_, exec_of_eval hloop (d + 1) g (Nat.le_add_left 1 d), rfl⟩

/-! ### The levels -/

/-- The program and its CPU. -/
structure Halting where
  program : Program
  halted : Bool

/-- The innermost loop goes on to the next instruction. -/
def Halting.running (p : Halting) : Bool := !p.halted && p.program.running

/-- The program with the innermost loop about to break. -/
def stopped (p : Program) : Program := { p with s := { p.s with stop := true } }

/-- An instruction, which may halt the CPU. -/
def Instruction : ProgramEvent → Prop
  | .guest (.other _) => True
  | _ => False

/-- A step of the program; a halted CPU breaks the innermost loop. -/
def haltingStep (eng : Engine) (p : Halting) (e : ProgramEvent) (q : Halting) : Prop :=
  (q.halted = p.halted ∨ Instruction e) ∧
    match e with
    | .unwind => p.running = false ∧ programStep eng (stopped p.program) .unwind q.program
    | e => p.halted = false ∧ programStep eng p.program e q.program

/-- The program as a machine with a stack. -/
def program (x : LoopStack.State Guest Level) : Halting :=
  ⟨⟨⟨x.s.m, x.stack, x.stop⟩, x.s.exitCode, x.s.shutdown⟩, x.s.halted⟩

def event : LoopStack.MachineEvent ProgramEvent → ProgramEvent
  | .step e => e
  | .unwind => .unwind

/-- The step takes none of the levels `ls`. -/
def Above (ls : List Level) (p : Halting) (e : ProgramEvent) : Prop :=
  ls <:+ p.program.s.levels ∧ (e = .unwind → p.program.s.levels ≠ ls)

theorem running_iff (x : LoopStack.State Guest Level) :
    (program x).running = true ↔ x.stop = false ∧ ¬ (code eng).ended x.s := by
  rw [not_ended]
  simp [Halting.running, Program.running, program, and_comm, and_assoc]

theorem breaks_iff (x : LoopStack.State Guest Level) : x.breaks (code eng) ↔ (program x).running = false := by
  cases hstop : x.stop <;> cases hs : x.s.shutdown <;> cases hh : x.s.halted <;>
    simp [LoopStack.State.breaks, Halting.running, Program.running, program, code, Guest.ended, hstop, hs, hh]

section Steps

variable {g : Guest} {ls : List Level} {s' : Nesting.State} {b : Bool}

/-- The machine after a step that has not asked for the end of the program. -/
def after (g : Guest) (s' : Nesting.State) (b : Bool) : LoopStack.State Guest Level :=
  ⟨{ g.setM s'.m with halted := b }, s'.levels, s'.stop⟩

theorem put_other (m : Machine) (c : Bool) :
    LoopStack.put ls (.done { g.setM m with halted := c } false) = after g s' b ↔ s' = ⟨m, ls, false⟩ ∧ b = c := by
  obtain ⟨m', levels, stop⟩ := s'
  simp [LoopStack.put, after, Guest.setM, eq_comm]
  tauto

theorem put_done (m : Machine) (c : Bool) :
    LoopStack.put ls (.done (g.setM m) c) = after g s' b ↔ s' = ⟨m, ls, c⟩ ∧ b = g.halted := by
  obtain ⟨m', levels, stop⟩ := s'
  simp [LoopStack.put, after, Guest.setM, eq_comm]
  tauto

theorem put_nest (m : Machine) (l : Level) :
    LoopStack.put ls (.nest (g.setM m) l) = after g s' b ↔ s' = ⟨m, l :: ls, false⟩ ∧ b = g.halted := by
  obtain ⟨m', levels, stop⟩ := s'
  simp [LoopStack.put, after, Guest.setM, eq_comm]
  tauto

theorem put_exec (m : Machine) (r : Option ExecSaved) :
    LoopStack.put ls (r.elim (.done (g.setM m) false) fun saved => .nest (g.setM m) (.exec saved)) = after g s' b ↔
      s' = ⟨m, (r.map Level.exec).toList ++ ls, false⟩ ∧ b = g.halted := by
  cases r with
  | none => exact put_done m false
  | some saved => exact put_nest m _

/-- A step of the levels is the code of one step of the loop. -/
theorem step_iff_cpuStep (hls : ls ≠ []) {e : Event} (he : e ≠ .unwind) :
    ((b = g.halted ∨ Instruction (.guest e)) ∧ step eng ⟨g.m, ls, false⟩ e s') ↔
      ∃ a, cpuStep eng g (.guest e) a ∧ LoopStack.put ls a = after g s' b := by
  cases e with
  | other m' =>
    constructor
    · rintro ⟨-, -, hm, rfl⟩
      exact ⟨_, ⟨hm, b, rfl⟩, (put_other m' b).mpr ⟨rfl, rfl⟩⟩
    · rintro ⟨-, ⟨hm, c, rfl⟩, hput⟩
      obtain ⟨rfl, -⟩ := (put_other m' c).mp hput
      exact ⟨Or.inr trivial, rfl, hm, rfl⟩
  | memory svc =>
    constructor
    · rintro ⟨hb, -, hsvc, m', hm, rfl⟩
      exact ⟨_, ⟨hsvc, m', hm, rfl⟩, (put_done m' false).mpr ⟨rfl, hb.resolve_right id⟩⟩
    · rintro ⟨-, ⟨hsvc, m', hm, rfl⟩, hput⟩
      obtain ⟨rfl, hb⟩ := (put_done m' false).mp hput
      exact ⟨Or.inl hb, rfl, hsvc, m', hm, rfl⟩
  | host u => simp [step, cpuStep, put_done, Instruction, and_comm, and_left_comm]
  | files call => simp [step, cpuStep, put_done, Instruction, and_comm]
  | int31 => simp [step, cpuStep, put_done, Instruction, and_comm, and_left_comm]
  | dpmiEntry => simp [step, cpuStep, put_done, Instruction, and_comm]
  | enterRm svc => simp [step, cpuStep, put_nest, Instruction, and_comm]
  | enterRmcb idx => simp [step, cpuStep, put_nest, Instruction, and_assoc, and_comm, and_left_comm]
  | exec host => simp [step, cpuStep, put_exec, Instruction, and_comm, and_left_comm]
  | exit => simp [step, cpuStep, put_done, Instruction, and_comm, and_left_comm]
  | stopCallback =>
    have hput : LoopStack.put ls (.done (g.setM g.m) true) = after g s' b ↔ s' = ⟨g.m, ls, true⟩ ∧ b = g.halted :=
      put_done g.m true
    simp only [step, cpuStep, ne_eq, hls, not_false_eq_true, true_and, exists_eq_left, Instruction, or_false]
    rw [and_comm]
    exact hput.symm
  | unwind => exact absurd rfl he

/-- No service ends the program. -/
theorem cpuStep_after {e : Event} {a : Act} (h : cpuStep eng g (.guest e) a) (ls : List Level) :
    ∃ s' b, LoopStack.put ls a = after g s' b := by
  have hdone : ∀ (m : Machine) c, ∃ s' b, LoopStack.put ls (.done (g.setM m) c) = after g s' b :=
    fun m c => ⟨_, _, (put_done m c).mpr ⟨rfl, rfl⟩⟩
  have hnest : ∀ (m : Machine) l, ∃ s' b, LoopStack.put ls (.nest (g.setM m) l) = after g s' b :=
    fun m l => ⟨_, _, (put_nest m l).mpr ⟨rfl, rfl⟩⟩
  cases e with
  | other m' =>
    obtain ⟨-, c, rfl⟩ := h
    exact ⟨_, _, (put_other m' c).mpr ⟨rfl, rfl⟩⟩
  | memory svc =>
    obtain ⟨-, m', -, rfl⟩ := h
    exact hdone m' false
  | host u =>
    obtain ⟨m', -, rfl⟩ := h
    exact hdone m' false
  | files call =>
    obtain rfl := h
    exact hdone _ false
  | int31 =>
    obtain ⟨-, m', -, rfl⟩ := h
    exact hdone m' false
  | dpmiEntry =>
    obtain rfl := h
    exact hdone _ false
  | enterRm svc =>
    obtain rfl := h
    exact hnest _ _
  | enterRmcb idx =>
    obtain ⟨cb, -, -, rfl⟩ := h
    exact hnest _ _
  | exec host =>
    obtain ⟨m', r, -, rfl⟩ := h
    exact ⟨_, _, (put_exec m' r).mpr ⟨rfl, rfl⟩⟩
  | exit =>
    obtain ⟨-, rfl⟩ := h
    exact hdone _ true
  | stopCallback =>
    obtain rfl := h
    exact hdone g.m true
  | unwind => cases h

/-- A step of the program is one of the machine, where there is a level. -/
theorem haltingStep_iff {x : LoopStack.State Guest Level} (hx : x.stack ≠ []) (e : ProgramEvent) (q : Halting) :
    haltingStep eng (program x) e q ↔
      ∃ e' y, event e' = e ∧ program y = q ∧ LoopStack.machineStep (code eng) x e' y := by
  obtain ⟨g, ls, stop⟩ := x
  have hact : ∀ e, e ≠ .unwind → (∃ e' y, event e' = e ∧ program y = q ∧
      LoopStack.machineStep (code eng) ⟨g, ls, stop⟩ e' y) → (program ⟨g, ls, stop⟩).running = true ∧
        ∃ a, cpuStep eng g e a ∧ program (LoopStack.put ls a) = q := by
    rintro e he ⟨e' | _, y, rfl, rfl, hstep⟩
    · obtain ⟨hstop, hover, a, ha, rfl⟩ := hstep
      exact ⟨(@running_iff eng _).mpr ⟨hstop, hover⟩, a, ha, rfl⟩
    · exact absurd rfl he
  have hmachine : ∀ e a, (program ⟨g, ls, stop⟩).running = true → cpuStep eng g e a →
      program (LoopStack.put ls a) = q → ∃ e' y, event e' = e ∧ program y = q ∧
        LoopStack.machineStep (code eng) ⟨g, ls, stop⟩ e' y := by
    intro e a hrun ha hq
    obtain ⟨hstop, hover⟩ := (@running_iff eng _).mp hrun
    exact ⟨.step e, _, rfl, hq, hstop, hover, a, ha, rfl⟩
  -- a running loop is one whose program runs on a CPU that is not halted
  have hruns : (program ⟨g, ls, stop⟩).running = true ↔
      g.halted = false ∧ (program ⟨g, ls, stop⟩).program.running = true := by
    simp [Halting.running, program]
  obtain ⟨q, c⟩ := q
  cases e with
  | guest e =>
    constructor
    · rintro ⟨hhalt, hh, hrun, he, s', hs, rfl⟩
      have hrun := hruns.mpr ⟨hh, hrun⟩
      have hstop : stop = false := ((@running_iff eng _).mp hrun).1
      subst hstop
      obtain ⟨a, ha, hput⟩ := (step_iff_cpuStep hx he).mp ⟨hhalt, hs⟩
      exact hmachine _ a hrun ha (by rw [hput]; rfl)
    · intro h
      obtain ⟨hrun, a, ha, hq⟩ := hact _ (by simp) h
      have hstop : stop = false := ((@running_iff eng _).mp hrun).1
      subst hstop
      have he : e ≠ .unwind := by
        rintro rfl
        exact ha
      obtain ⟨s', b, hput⟩ := cpuStep_after ha ls
      obtain ⟨hhalt, hs⟩ := (step_iff_cpuStep hx he).mpr ⟨a, ha, hput⟩
      rw [hput] at hq
      cases hq
      exact ⟨hhalt, (hruns.mp hrun).1, (hruns.mp hrun).2, he, s', hs, rfl⟩
  | fault f =>
    constructor
    · rintro ⟨hhalt, hh, hrun, rfl⟩
      obtain rfl : c = g.halted := hhalt.resolve_right id
      exact hmachine _ _ (hruns.mpr ⟨hh, hrun⟩) rfl rfl
    · intro h
      obtain ⟨hrun, a, rfl, hq⟩ := hact _ (by simp) h
      cases hq
      exact ⟨Or.inl rfl, (hruns.mp hrun).1, (hruns.mp hrun).2, rfl⟩
  | quit =>
    constructor
    · rintro ⟨hhalt, hh, hrun, hnil, rfl⟩
      obtain rfl : c = g.halted := hhalt.resolve_right id
      exact hmachine _ _ (hruns.mpr ⟨hh, hrun⟩) ⟨hnil, rfl⟩ rfl
    · intro h
      obtain ⟨hrun, a, ⟨hnil, rfl⟩, hq⟩ := hact _ (by simp) h
      cases hq
      exact ⟨Or.inl rfl, (hruns.mp hrun).1, (hruns.mp hrun).2, hnil, rfl⟩
  | unwind =>
    constructor
    · rintro ⟨hhalt, hrun, -, l, rest, hl, rfl⟩
      obtain rfl : c = g.halted := hhalt.resolve_right id
      exact ⟨.unwind, _, rfl, rfl, l, rest, (breaks_iff _).mpr hrun, hl, rfl⟩
    · rintro ⟨e' | _, y, he, hq, hstep⟩
      · obtain rfl : e' = .unwind := he
        obtain ⟨-, -, a, ha, -⟩ := hstep
        exact ha.elim
      · obtain ⟨l, rest, hbreaks, hl, rfl⟩ := hstep
        cases hq
        exact ⟨Or.inl rfl, (breaks_iff _).mp hbreaks, by simp [Program.running, stopped], l, rest, hl, rfl⟩

end Steps

/-- A run of the machine above `ls` is a run of the program above `ls`, and the other way round. -/
theorem guarded_iff {ls : List Level} (hls : ls ≠ []) (x : LoopStack.State Guest Level) (q : Halting) :
    (∃ es, Guarded (haltingStep eng) (Above ls) (program x) es q) ↔
      ∃ y es, program y = q ∧ Guarded (LoopStack.machineStep (code eng)) (LoopStack.Above ls) x es y := by
  constructor
  · rintro ⟨es, h⟩
    generalize hp : program x = p at h
    induction h generalizing x with
    | nil p => exact ⟨x, [], hp, .nil x⟩
    | @cons p p' q e es hg he _ ih =>
      subst hp
      have hx : x.stack ≠ [] := fun h => hls (List.suffix_nil.mp (h ▸ hg.1))
      obtain ⟨e', y, rfl, hy, hstep⟩ := (haltingStep_iff hx e p').mp he
      obtain ⟨z, fs, hz, hrun⟩ := ih y hy
      refine ⟨z, e' :: fs, hz, .cons ⟨hg.1, fun h => hg.2 ?_⟩ hstep hrun⟩
      rw [h]
      rfl
  · rintro ⟨y, es, rfl, h⟩
    induction h with
    | nil x => exact ⟨[], .nil _⟩
    | @cons x y z e es hg he _ ih =>
      obtain ⟨fs, hrun⟩ := ih
      have hx : x.stack ≠ [] := fun h => hls (List.suffix_nil.mp (h ▸ hg.1))
      have hstep : haltingStep eng (program x) (event e) (program y) :=
        (haltingStep_iff hx _ _).mpr ⟨e, y, rfl, rfl, he⟩
      refine ⟨event e :: fs, .cons ⟨hg.1, fun h => ?_⟩ hstep hrun⟩
      cases e with
      | unwind => exact hg.2 rfl
      | step e =>
        obtain rfl : e = .unwind := h
        obtain ⟨-, -, a, ha, -⟩ := he
        exact ha.elim

/-- The program at the head of the innermost of the loops `ls`. -/
def atHead (g : Guest) (ls : List Level) (stop : Bool) : Halting :=
  ⟨⟨⟨g.m, ls, stop⟩, g.exitCode, g.shutdown⟩, g.halted⟩

section Levels

variable {g : Guest} {d : Nat} {h' : Host}

/-- The steps of the levels that lead to where a call returns. -/
theorem runMachine_run (l : Level) (ls : List Level) (h : RunMachine eng ⟨g, false, d + 1⟩ h') :
    ∃ g', h' = ⟨g', false, d + 1⟩ ∧ ∃ es stop, (atHead g' (l :: ls) stop).running = false ∧
      Guarded (haltingStep eng) (Above (l :: ls)) (atHead g (l :: ls) false) es (atHead g' (l :: ls) stop) := by
  rw [runMachine_loop] at h
  obtain ⟨g', hh', hloop⟩ := h
  obtain ⟨es, stop, hbreaks, hrun⟩ := (LoopStack.loop_iff (l :: ls) _ _).mp hloop
  obtain ⟨fs, hprog⟩ := (guarded_iff (List.cons_ne_nil l ls) ⟨g, l :: ls, false⟩ _).mpr ⟨_, es, rfl, hrun⟩
  exact ⟨g', hh', fs, stop, (breaks_iff _).mp hbreaks, hprog⟩

/-- Where the levels lead, the call returns. -/
theorem runMachine_of_run {g' : Guest} {l : Level} {ls : List Level} {es : List ProgramEvent} {stop : Bool}
    (hbreaks : (atHead g' (l :: ls) stop).running = false)
    (hrun : Guarded (haltingStep eng) (Above (l :: ls)) (atHead g (l :: ls) false) es (atHead g' (l :: ls) stop)) :
    RunMachine eng ⟨g, false, d + 1⟩ ⟨g', false, d + 1⟩ := by
  obtain ⟨y, fs, hy, hmachine⟩ := (guarded_iff (List.cons_ne_nil l ls) ⟨g, l :: ls, false⟩ _).mp ⟨es, hrun⟩
  obtain ⟨⟨m, code, sd, hlt⟩, levels, st⟩ := y
  cases hy
  rw [runMachine_loop]
  exact ⟨_, rfl, (LoopStack.loop_iff (l :: ls) _ _).mpr ⟨fs, _, (breaks_iff _).mpr hbreaks, hmachine⟩⟩

end Levels

/-- **A call of `DOSBOX_RunMachine` from inside a run loop returns exactly where the levels lead.** -/
theorem runMachine_iff (eng : Engine) (g : Guest) (d : Nat) (l : Level) (ls : List Level) (h' : Host) :
    RunMachine eng ⟨g, false, d + 1⟩ h' ↔
      ∃ g', h' = ⟨g', false, d + 1⟩ ∧ ∃ es stop, (atHead g' (l :: ls) stop).running = false ∧
        Guarded (haltingStep eng) (Above (l :: ls)) (atHead g (l :: ls) false) es (atHead g' (l :: ls) stop) := by
  constructor
  · exact runMachine_run l ls
  · rintro ⟨g', rfl, es, stop, hbreaks, hrun⟩
    exact runMachine_of_run hbreaks hrun

/-! ### The parents -/

theorem programStep_balanced {p q : Program} {e : ProgramEvent} (h : Balanced p.s) (hs : programStep eng p e q) :
    Balanced q.s := by
  cases e with
  | guest e =>
    obtain ⟨-, -, s, hstep, rfl⟩ := hs
    exact step_balanced h hstep
  | fault f =>
    obtain ⟨-, rfl⟩ := hs
    show (f.handle p.s.m).1.processStack.length = _
    rw [(handle_process f p.s.m).1]
    exact h
  | quit =>
    obtain ⟨-, -, rfl⟩ := hs
    exact h
  | unwind =>
    obtain ⟨-, l, rest, hl, rfl⟩ := hs
    have hstep : step eng { p.s with stop := true } .unwind
        ⟨(l.finish eng p.s.m).1, rest, (l.finish eng p.s.m).2⟩ := ⟨l, rest, rfl, hl, rfl⟩
    exact step_balanced (s := { p.s with stop := true }) h hstep

theorem haltingStep_balanced {p q : Halting} {e : ProgramEvent} (h : Balanced p.program.s)
    (hs : haltingStep eng p e q) : Balanced q.program.s := by
  obtain ⟨-, hs⟩ := hs
  cases e with
  | unwind => exact programStep_balanced (p := stopped p.program) h hs.2
  | guest e => exact programStep_balanced h hs.2
  | fault f => exact programStep_balanced h hs.2
  | quit => exact programStep_balanced h hs.2

/-- Levels that fit the process stack of `m`: what waits below a loop does not matter to it. -/
def waiting (m : Machine) : List Level :=
  .realMode .simulateInt (saveRm m) :: List.replicate m.processStack.length (.exec (saveExec m))

theorem waiting_balanced (m : Machine) : m.processStack.length = (waiting m).countP Level.isExec := by
  rw [waiting, List.countP_cons_of_neg Bool.false_ne_true, List.countP_replicate, Level.isExec, if_pos rfl]

/-- **A run loop takes no parent of its caller.**  Whatever guest code, services, faults and halts run in it,
    there are as many programs waiting for their child when it returns as when it was called. -/
theorem runMachine_processStack {g : Guest} {d : Nat} {h' : Host} (h : RunMachine eng ⟨g, false, d + 1⟩ h') :
    h'.guest.m.processStack.length = g.m.processStack.length := by
  obtain ⟨g', rfl, es, stop, -, hrun⟩ := runMachine_run (.realMode .simulateInt (saveRm g.m))
    (List.replicate g.m.processStack.length (.exec (saveExec g.m))) h
  have hend : Balanced (atHead g' (waiting g.m) stop).program.s :=
    hrun.run.invariant (P := fun p : Halting => Balanced p.program.s) (fun _ _ _ => haltingStep_balanced)
      (waiting_balanced g.m)
  exact hend.trans (waiting_balanced g.m).symm

/-- A child that has one parent. -/
def oneParent : Guest :=
  ⟨{ bootMachine with processStack := [processState bootMachine 0x2000 0x2100] }, 0, false, false⟩

/-- It exits inside an AX=0300 of its own. -/
theorem runMachine_processStack_exit :
    RunMachine tableEngine ⟨oneParent, false, 2⟩ ⟨oneParent.setM (int21_4C oneParent.m), false, 2⟩ ∧
      (int21_4C oneParent.m).processStack.length = 1 := by
  have hrun : RunMachine tableEngine ⟨oneParent, false, 2⟩ ⟨oneParent.setM (int21_4C oneParent.m), false, 2⟩ := by
    refine ⟨⟨oneParent.setM (int21_4C oneParent.m), false, 3⟩, ?_, rfl⟩
    exact .breaks (h := ⟨oneParent, false, 3⟩) (e := .guest .exit) rfl rfl ⟨List.cons_ne_nil _ _, rfl⟩ (.done _ _ _) rfl
  exact ⟨hrun, runMachine_processStack hrun⟩

end Dosiz.RunLoop
