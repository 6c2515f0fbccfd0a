/-
  Dosiz/DeclinedFaults.lean
  =========================
  **Faults the host declines to deliver** (`dosiz_pm_exc_dispatch` and `dosiz_le_exc_handle32` of
  `bridge.cc`, `DOSBOX_RunMachine` of `dosbox_compat.cc`).

  A fault of ring-0 code, or one that comes to a catch-all gate, sets the exit code and a flag on
  which every run loop breaks.  A ring-3 fault without a handler, or with the guard tripped, only
  answers `CBRET_STOP`, which breaks one loop.  `declined_iff`: the first kind ends dosiz with an
  exit code other than 0; the second kind ends the program as it should only where an AH=4C of the
  program has been lost before.
-/
import Dosiz.ChildExit
import Dosiz.FaultGuard

namespace Dosiz.Nesting

open ByteMemory Machine PmException Transition

/-! ### The run loops with their exit code -/

/-- The nested loops, `s_exit_code` and `shutdown_requested`. -/
structure Program where
  s : State
  exitCode : Nat
  shutdown : Bool

def Program.start (m : Machine) : Program := ⟨⟨m, [], false⟩, 0, false⟩

/-- The innermost loop goes on to the next instruction. -/
def Program.running (p : Program) : Bool := !p.shutdown && !p.s.stop

/-- The outermost loop breaks: dosiz returns `s_exit_code`. -/
def Program.over (p : Program) : Prop := (p.s.stop = true ∨ p.shutdown = true) ∧ p.s.levels = []

/-- How many AH=4B wait. -/
def Program.execs (p : Program) : Nat := p.s.levels.countP Level.isExec

/-- A protected-mode fault comes to a trampoline of its vector, or to a catch-all gate. -/
inductive Fault where
  | dispatch (vec : Nat)
  | catchAll

/-- `true` is `CBRET_STOP`. -/
def Fault.handle (m : Machine) : Fault → Machine × Bool
  | .dispatch vec => pmExcDispatch m vec
  | .catchAll => (m, true)

/-- The fault comes to `dosiz_le_exc_handle32` or its 16-bit twin. -/
def Fault.terminates (m : Machine) : Fault → Bool
  | .dispatch vec => readd m.mem (lin (m.segPhys .ss + m.r32 .esp + (if pmExcHasErrCode vec then 8 else 4))) %
      65536 % 4 = 0
  | .catchAll => true

/-- What happens: a step of the innermost level, a fault, AH=4C of the top-level program, or a loop that
    breaks. -/
inductive ProgramEvent where
  | guest (e : Event)
  | fault (f : Fault)
  | quit
  | unwind

def programStep (eng : Engine) (p : Program) (e : ProgramEvent) (q : Program) : Prop :=
  match e with
  | .guest e => p.running = true ∧ e ≠ .unwind ∧ ∃ s, step eng p.s e s ∧ q = { p with s := s }
  | .fault f => p.running = true ∧
      q = ⟨⟨(f.handle p.s.m).1, p.s.levels, (f.handle p.s.m).2⟩,
        if f.terminates p.s.m then 1 else p.exitCode, f.terminates p.s.m⟩
  | .quit => p.running = true ∧ p.s.m.processStack = [] ∧ q = ⟨{ p.s with stop := true }, p.s.m.r8l .eax, true⟩
  | .unwind => p.running = false ∧ ∃ l rest, p.s.levels = l :: rest ∧
      q = { p with s := ⟨(l.finish eng p.s.m).1, rest, (l.finish eng p.s.m).2⟩ }

variable {eng : Engine}

/-! ### Where the loops stop breaking -/

/-- Break the loops that are to break. -/
def land (eng : Engine) (code : Nat) (shutdown : Bool) (m : Machine) (stop : Bool) : List Level → Program
  | [] => ⟨⟨m, [], stop⟩, code, shutdown⟩
  | l :: rest =>
    if !shutdown && !stop then ⟨⟨m, l :: rest, stop⟩, code, shutdown⟩
    else land eng code shutdown (l.finish eng m).1 (l.finish eng m).2 rest

section Land

variable {code : Nat} {shutdown stop : Bool} {m : Machine} {ls : List Level}

theorem land_running (h : (!shutdown && !stop) = true) : land eng code shutdown m stop ls =
    ⟨⟨m, ls, stop⟩, code, shutdown⟩ := by
  cases ls with
  | nil => rfl
  | cons l rest => exact if_pos h

theorem step_unwind {l : Level} {rest : List Level} (h : (!shutdown && !stop) = false) :
    programStep eng ⟨⟨m, l :: rest, stop⟩, code, shutdown⟩ .unwind
      ⟨⟨(l.finish eng m).1, rest, (l.finish eng m).2⟩, code, shutdown⟩ :=
  ⟨h, l, rest, rfl, rfl⟩

/-- The unwinding steps lead to `land`. -/
theorem run_land : ∃ n, Run (programStep eng) ⟨⟨m, ls, stop⟩, code, shutdown⟩ (List.replicate n .unwind)
    (land eng code shutdown m stop ls) := by
  induction ls generalizing m stop with
  | nil => exact ⟨0, .nil _⟩
  | cons l rest ih =>
    cases h : !shutdown && !stop with
    | true =>
      rw [land_running h]
      exact ⟨0, .nil _⟩
    | false =>
      obtain ⟨n, hn⟩ := @ih (l.finish eng m).2 (l.finish eng m).1
      rw [land, h, if_neg (by decide)]
      exact ⟨n + 1, by simpa [List.replicate_succ] using Run.cons (step_unwind h) hn⟩

/-- A program that is not running can only unwind. -/
theorem programStep_unwind {e : ProgramEvent} {q : Program} (h : (!shutdown && !stop) = false)
    (hs : programStep eng ⟨⟨m, ls, stop⟩, code, shutdown⟩ e q) : e = .unwind ∧ ∃ l rest, ls = l :: rest ∧
      q = ⟨⟨(l.finish eng m).1, rest, (l.finish eng m).2⟩, code, shutdown⟩ := by
  cases e with
  | unwind =>
    obtain ⟨-, l, rest, hl, hq⟩ := hs
    exact ⟨rfl, l, rest, hl, hq⟩
  | guest e => exact absurd (h.symm.trans hs.1) (by decide)
  | fault f => exact absurd (h.symm.trans hs.1) (by decide)
  | quit => exact absurd (h.symm.trans hs.1) (by decide)

/-- Whatever runs next, it runs after the loops have broken. -/
theorem land_first {es : List ProgramEvent} {u : Program}
    (h : Run (programStep eng) ⟨⟨m, ls, stop⟩, code, shutdown⟩ es u) (hu : u.running = true) :
    ∃ n fs, es = List.replicate n .unwind ++ fs ∧ Run (programStep eng) (land eng code shutdown m stop ls) fs u := by
  induction ls generalizing m stop es with
  | nil => exact ⟨0, es, rfl, h⟩
  | cons l rest ih =>
    cases hgo : !shutdown && !stop with
    | true =>
      rw [land_running hgo]
      exact ⟨0, es, rfl, h⟩
    | false =>
      rw [land, hgo, if_neg (by decide)]
      cases h with
      | nil => exact absurd (hgo.symm.trans hu) (by decide)
      | cons he hrest =>
        obtain ⟨rfl, l', rest', hl, rfl⟩ := programStep_unwind hgo he
        cases hl
        obtain ⟨n, fs, rfl, hfs⟩ := ih hrest
        exact ⟨n + 1, fs, by simp [List.replicate_succ], hfs⟩

/-- With the flag set every loop breaks. -/
theorem land_shutdown : (land eng code true m stop ls).shutdown = true ∧
    (land eng code true m stop ls).exitCode = code ∧ (land eng code true m stop ls).s.levels = [] := by
  induction ls generalizing m stop with
  | nil => exact ⟨rfl, rfl, rfl⟩
  | cons l rest ih => exact ih

/-- Without it the loops break as far as the stop is passed on. -/
theorem land_settle : land eng code false m true ls = ⟨settle eng m ls, code, false⟩ := by
  induction ls generalizing m with
  | nil => rfl
  | cons l rest ih =>
    rw [land, settle, if_neg (by decide)]
    cases hf : (l.finish eng m).2 with
    | true =>
      rw [if_pos rfl]
      exact ih
    | false =>
      rw [if_neg (by decide)]
      exact land_running rfl

end Land

/-! ### Runs of the program -/

/-- A fault changes no global of the process tree. -/
theorem handle_process (f : Fault) (m : Machine) : (f.handle m).1.processStack = m.processStack ∧
    (f.handle m).1.childExitPending = m.childExitPending := by
  cases f with
  | catchAll => exact ⟨rfl, rfl⟩
  | dispatch vec =>
    have hguard : ∀ cs eip, (faultGuard m cs eip).1.processStack = m.processStack ∧
        (faultGuard m cs eip).1.childExitPending = m.childExitPending := by
      intro cs eip
      unfold faultGuard
      split <;> exact ⟨rfl, rfl⟩
    have henter : ∀ (r : Machine) (i : Interrupted), (enterHandler r vec i).processStack = r.processStack ∧
        (enterHandler r vec i).childExitPending = r.childExitPending := by
      intro r i
      unfold enterHandler
      dsimp only
      split <;> exact ⟨rfl, rfl⟩
    unfold Fault.handle pmExcDispatch
    dsimp only
    generalize (if pmExcHasErrCode vec = true then 8 else 4) = csOff
    split_ifs
    · exact ⟨rfl, rfl⟩
    · exact hguard _ _
    · exact hguard _ _
    · exact ⟨(henter _ _).1.trans (hguard _ _).1, (henter _ _).2.trans (hguard _ _).2⟩

/-- A fault the host terminates for is declined. -/
theorem handle_of_terminates {f : Fault} {m : Machine} (h : f.terminates m = true) : (f.handle m).2 = true := by
  cases f with
  | catchAll => rfl
  | dispatch vec =>
    have hring0 := of_decide_eq_true h
    unfold Fault.handle pmExcDispatch
    dsimp only
    rw [if_pos hring0]

/-- The exit code is 0 until it is set together with the flag. -/
structure Program.Ok (p : Program) : Prop where
  balanced : Balanced p.s
  code : p.shutdown = false → p.exitCode = 0

theorem programStep_ok {p q : Program} {e : ProgramEvent} (h : p.Ok) (hs : programStep eng p e q) : q.Ok := by
  cases e with
  | guest e =>
    obtain ⟨-, -, s, hstep, rfl⟩ := hs
    exact ⟨step_balanced h.balanced hstep, h.code⟩
  | fault f =>
    obtain ⟨hrun, rfl⟩ := hs
    refine ⟨?_, fun hno => ?_⟩
    · show (f.handle p.s.m).1.processStack.length = _
      rw [(handle_process f p.s.m).1]
      exact h.balanced
    · have hgo : p.shutdown = false := by
        simpa using (Bool.and_eq_true_iff.mp hrun).1
      dsimp only at hno ⊢
      rw [hno, if_neg (by decide)]
      exact h.code hgo
  | quit =>
    obtain ⟨-, -, rfl⟩ := hs
    exact ⟨h.balanced, nofun⟩
  | unwind =>
    obtain ⟨-, l, rest, hl, rfl⟩ := hs
    have hstep : step eng { p.s with stop := true } .unwind
        ⟨(l.finish eng p.s.m).1, rest, (l.finish eng p.s.m).2⟩ := ⟨l, rest, rfl, hl, rfl⟩
    exact ⟨step_balanced (s := { p.s with stop := true }) h.balanced hstep, h.code⟩

/-! ### What becomes of the program -/

/-- At `q` the program that ran at `p` is gone, and it shows: dosiz returns an exit code other than 0, or
    its parent runs, with a code other than 0 from AH=4B and AH=4D. -/
def Shown (p q : Program) : Prop :=
  (q.over ∧ q.exitCode ≠ 0) ∨
    (q.running = true ∧ q.execs < p.execs ∧ q.s.m.r8l .eax ≠ 0 ∧ (int21_4D q.s.m).ax ≠ 0)

/-- The program, a child, has ended itself with a code other than 0 before, and runs on: only levels that
    pass the stop on are above its AH=4B. -/
def LostExit (p : Program) : Prop :=
  ∃ inner saved rest ps tl, p.s.levels = inner ++ .exec saved :: rest ∧ (∀ k ∈ inner, k.passes p.s.m = true) ∧
    p.s.m.processStack = ps :: tl ∧ ps.childExitCode % 256 ≠ 0

section Shows

variable {p : Program} {m : Machine}

theorem shown_shutdown {ls : List Level} {stop : Bool} : Shown p (land eng 1 true m stop ls) := by
  obtain ⟨hflag, hcode, hlevels⟩ := @land_shutdown eng 1 stop m ls
  exact Or.inl ⟨⟨Or.inr hflag, hlevels⟩, by rw [hcode]; decide⟩

/-- Levels without an AH=4B: the same program runs on, or dosiz ends with exit code 0. -/
theorem not_shown_top (hlevels : ∀ k ∈ p.s.levels, k.isExec = false) {q : Program} (hcode : q.exitCode = 0) :
    ¬ Shown p q := by
  have hnone : p.execs = 0 := List.countP_eq_zero.mpr fun k hk => by
    rw [hlevels k hk]
    decide
  rintro (⟨-, hne⟩ | ⟨-, hlt, -⟩)
  · exact hne hcode
  · rw [hnone] at hlt
    exact absurd hlt (Nat.not_lt_zero _)

/-- The first AH=4B among the levels. -/
theorem levels_split (ls : List Level) : (∀ k ∈ ls, k.isExec = false) ∨
    ∃ inner saved rest, ls = inner ++ .exec saved :: rest ∧ ∀ k ∈ inner, k.isExec = false := by
  induction ls with
  | nil => exact Or.inl fun k hk => absurd hk List.not_mem_nil
  | cons l ls ih =>
    cases hl : l.isExec with
    | true =>
      cases l with
      | exec saved => exact Or.inr ⟨[], saved, ls, rfl, fun k hk => absurd hk List.not_mem_nil⟩
      | realMode svc saved => cases hl
      | callback saved => cases hl
    | false =>
      rcases ih with hnone | ⟨inner, saved, rest, rfl, hin⟩
      · exact Or.inl (List.forall_mem_cons.mpr ⟨hl, hnone⟩)
      · exact Or.inr ⟨l :: inner, saved, rest, rfl, List.forall_mem_cons.mpr ⟨hl, hin⟩⟩

theorem passes_not_exec {k : Level} (h : k.passes m = true) : k.isExec = false := by
  cases k with
  | exec saved => cases h
  | realMode svc saved => rfl
  | callback saved => rfl

theorem execs_split {inner rest : List Level} {saved : ExecSaved} (hin : ∀ k ∈ inner, k.isExec = false) :
    (inner ++ .exec saved :: rest).countP Level.isExec = rest.countP Level.isExec + 1 := by
  have hnone : inner.countP Level.isExec = 0 := List.countP_eq_zero.mpr fun k hk => by
    rw [hin k hk]
    decide
  rw [List.countP_append, hnone, List.countP_cons_of_pos (by rfl), Nat.zero_add]

theorem first_exec {inner inner' rest rest' : List Level} {saved saved' : ExecSaved}
    (hin : ∀ k ∈ inner, k.isExec = false) (hin' : ∀ k ∈ inner', k.isExec = false)
    (h : inner ++ .exec saved :: rest = inner' ++ .exec saved' :: rest') : inner = inner' := by
  induction inner generalizing inner' with
  | nil =>
    cases inner' with
    | nil => rfl
    | cons k inner' =>
      obtain ⟨rfl, -⟩ := List.cons.inj h
      cases hin' _ List.mem_cons_self
  | cons k inner ih =>
    cases inner' with
    | nil =>
      obtain ⟨rfl, -⟩ := List.cons.inj h
      cases hin _ List.mem_cons_self
    | cons k' inner' =>
      obtain ⟨rfl, htl⟩ := List.cons.inj h
      rw [ih (fun x hx => hin x (List.mem_cons_of_mem _ hx)) (fun x hx => hin' x (List.mem_cons_of_mem _ hx)) htl]

/-- A declined fault that only breaks a loop. -/
theorem shown_settle_iff (hb : Balanced p.s) (hps : m.processStack = p.s.m.processStack)
    (hpend : m.childExitPending = p.s.m.childExitPending) :
    Shown p ⟨settle eng m p.s.levels, 0, false⟩ ↔ LostExit p := by
  have hpasses : ∀ k : Level, k.passes m = k.passes p.s.m := fun k => by
    rw [Level.passes, Level.passes, hpend]
  rcases levels_split p.s.levels with hnone | ⟨inner, saved, rest, hl, hin⟩
  · refine iff_of_false (not_shown_top hnone rfl) ?_
    rintro ⟨inner, saved, rest, ps, tl, hl, -⟩
    have hexec := hnone (.exec saved) (by rw [hl]; simp)
    cases hexec
  · have hne : p.s.m.processStack ≠ [] := by
      intro hnil
      rw [Balanced, hnil, hl, execs_split hin] at hb
      cases hb
    obtain ⟨ps, tl, hstack⟩ := List.exists_cons_of_ne_nil hne
    rw [hl]
    by_cases hthrough : ∀ k ∈ inner, k.passes m = true
    · obtain ⟨r, hr, hset⟩ := settle_through eng rest saved hin (hps.trans hstack) hthrough
      obtain ⟨hg, hcode, -⟩ := execEnd_spec eng saved (hr.processStack.trans (hps.trans hstack))
      have hlast : (execEnd eng saved r).1.lastChildExit = ps.childExitCode := by
        rw [hg.eq]
        rfl
      have hax : (int21_4D (execEnd eng saved r).1).ax = ps.childExitCode % 65536 := by
        show ((execEnd eng saved r).1.setR16 .eax _).r16 .eax = _
        rw [r16_setR16, hlast]
      rw [hset]
      constructor
      · rintro (⟨-, hne⟩ | ⟨-, -, hal, -⟩)
        · exact absurd rfl hne
        · refine ⟨inner, saved, rest, ps, tl, hl, fun k hk => (hpasses k).symm.trans (hthrough k hk), hstack, ?_⟩
          rw [← hcode]
          exact hal
      · rintro ⟨inner', saved', rest', ps', tl', hl', hthrough', hstack', hne⟩
        obtain ⟨rfl, -⟩ := List.cons.inj (hstack.symm.trans hstack')
        refine Or.inr ⟨rfl, ?_, ?_, ?_⟩
        · show rest.countP _ < p.s.levels.countP _
          rw [hl, execs_split hin]
          exact Nat.lt_succ_self _
        · show (execEnd eng saved r).1.r8l .eax ≠ 0
          rw [hcode]
          exact hne
        · show (int21_4D (execEnd eng saved r).1).ax ≠ 0
          rw [hax]
          omega
    · obtain ⟨r, post, hset⟩ := settle_kept eng rest saved hin hthrough
      rw [hset]
      refine iff_of_false ?_ ?_
      · rintro (⟨-, hne⟩ | ⟨-, hlt, -⟩)
        · exact absurd rfl hne
        · have hcount : p.execs = rest.countP Level.isExec + 1 := by
            rw [Program.execs, hl, execs_split hin]
          have hmore : rest.countP Level.isExec + 1 ≤ (post ++ .exec saved :: rest).countP Level.isExec := by
            rw [List.countP_append, List.countP_cons_of_pos (by rfl)]
            exact Nat.le_add_left _ _
          rw [hcount] at hlt
          exact absurd hlt (Nat.not_lt.mpr hmore)
      · rintro ⟨inner', saved', rest', ps', tl', hl', hthrough', -⟩
        -- both lists end at the first AH=4B
        have hin' : ∀ k ∈ inner', k.isExec = false := fun k hk => passes_not_exec (hthrough' k hk)
        have hsame : inner = inner' := first_exec hin hin' (hl.symm.trans hl')
        exact hthrough fun k hk => (hpasses k).trans (hthrough' k (hsame ▸ hk))

end Shows

/-- **Declined faults.**  In every state of a run in which the program goes on, a fault that the host
    declines makes loops break, by unwinding steps only, up to a state `q` that every continuation goes
    through.  At `q` the program is gone and the failure shows exactly where the fault is one the host
    terminates for, or an exit of the program with a code other than 0 has been lost before. -/
theorem declined_iff {m₀ : Machine} {es : List ProgramEvent} {p : Program} (h₀ : m₀.processStack = [])
    (hrun : Run (programStep eng) (.start m₀) es p) (hgo : p.running = true) {f : Fault}
    (hf : (f.handle p.s.m).2 = true) :
    ∃ p' q, programStep eng p (.fault f) p' ∧ (∃ n, Run (programStep eng) p' (List.replicate n .unwind) q) ∧
      (∀ fs u, Run (programStep eng) p' fs u → u.running = true →
        ∃ n gs, fs = List.replicate n .unwind ++ gs ∧ Run (programStep eng) q gs u) ∧
      (Shown p q ↔ f.terminates p.s.m = true ∨ LostExit p) := by
  have hstart : (Program.start m₀).Ok := ⟨by simp [Balanced, Program.start, h₀], fun _ => rfl⟩
  have hok : p.Ok := hrun.invariant (fun _ _ _ => programStep_ok) hstart
  have hcode : p.exitCode = 0 := hok.code (by simpa using (Bool.and_eq_true_iff.mp hgo).1)
  obtain ⟨hps, hpend⟩ := handle_process f p.s.m
  refine ⟨_, land eng (if f.terminates p.s.m then 1 else p.exitCode) (f.terminates p.s.m) (f.handle p.s.m).1
    (f.handle p.s.m).2 p.s.levels, ⟨hgo, rfl⟩, run_land, fun fs u => land_first, ?_⟩
  cases hterm : f.terminates p.s.m with
  | true => exact iff_of_true shown_shutdown (Or.inl rfl)
  | false =>
    rw [if_neg (by decide), hcode, hf, land_settle, shown_settle_iff hok.balanced hps hpend]
    exact ⟨Or.inr, fun h => h.resolve_left (by decide)⟩

/-! ### A fault without a handler -/

/-- A step that breaks no loop is one of a loop that goes on. -/
theorem step_going {s t : State} {e : Event} (hs : step eng s e t) (he : e ≠ .unwind) : s.stop = false := by
  cases e with
  | unwind => exact absurd rfl he
  | enterRmcb idx =>
    obtain ⟨cb, hgo, -⟩ := hs
    exact hgo
  | exec host =>
    obtain ⟨m', r, hgo, -⟩ := hs
    exact hgo
  | _ => exact hs.1

/-- A run of the nested loops in which none breaks is a run of the program. -/
theorem run_guest {s t : State} {es : List Event} (h : Run (step eng) s es t) (hes : Event.unwind ∉ es) :
    Run (programStep eng) ⟨s, 0, false⟩ (es.map .guest) ⟨t, 0, false⟩ := by
  induction h with
  | nil s => exact .nil _
  | cons hs _ ih =>
    rw [List.mem_cons, not_or] at hes
    obtain ⟨hne, hes⟩ := hes
    have hgo := step_going hs (Ne.symm hne)
    refine .cons ⟨?_, Ne.symm hne, _, hs, rfl⟩ (ih hes)
    rw [Program.running, hgo]
    rfl

/-- A child faults at ring 0 inside its AX=0301 call: both loops break, and dosiz ends with exit code 1. -/
theorem declined_iff_nested : ∃ p p' q saved k, Run (programStep tableEngine) (.start bootMachine)
      [.guest (.exec tinyHost), .guest (.enterRm .callFar)] p ∧
    p.s.levels = [.realMode .callFar k, .exec saved] ∧ programStep tableEngine p (.fault .catchAll) p' ∧
    (∃ n, Run (programStep tableEngine) p' (List.replicate n .unwind) q) ∧ Shown p q := by
  obtain ⟨s, saved, k, hrun, hstop, hl, -⟩ := run_tiny .callFar
  have hguest := run_guest hrun (by simp)
  have hgo : Program.running ⟨s, 0, false⟩ = true := by
    rw [Program.running, hstop]
    rfl
  obtain ⟨p', q, hstep, hunwind, -, hiff⟩ :=
    @declined_iff tableEngine bootMachine _ ⟨s, 0, false⟩ rfl hguest hgo .catchAll rfl
  exact ⟨_, p', q, saved, k, hguest, hl, hstep, hunwind, hiff.mpr (Or.inl rfl)⟩

/-- A divide fault of ring-3 code at 000F:0100, without a handler. -/
def unhandled : Machine :=
  { bootMachine with mem := writed (writed bootMachine.mem 0 0x100) 4 0x0F, cpu := zeroCpu }

/-- dosiz ends with exit code 0. -/
theorem unhandled_not_shown : ¬ ∀ (eng : Engine) (m₀ : Machine) (es : List ProgramEvent) (p p' : Program) (f : Fault),
    m₀.processStack = [] → Run (programStep eng) (.start m₀) es p → p.running = true →
      (f.handle p.s.m).2 = true → programStep eng p (.fault f) p' →
        ∃ n q, Run (programStep eng) p' (List.replicate n .unwind) q ∧ Shown p q := by
  intro h
  have hstop : (Fault.handle unhandled (.dispatch 0)).2 = true := by
    decide +kernel
  have hring : Fault.terminates unhandled (.dispatch 0) = false := by
    decide +kernel
  obtain ⟨n, q, hrun, hshown⟩ := h tableEngine unhandled [] (.start unhandled) _ (.dispatch 0) rfl (.nil _) rfl hstop
    ⟨rfl, rfl⟩
  have hq : q.exitCode = 0 := by
    cases n with
    | zero =>
      cases hrun
      show (if Fault.terminates unhandled (.dispatch 0) = true then 1 else 0) = 0
      rw [hring]
      rfl
    | succ n =>
      cases hrun with
      | cons he _ =>
        obtain ⟨-, l, rest, hl, -⟩ := he
        cases hl
  exact not_shown_top (p := .start unhandled) (fun k hk => absurd hk List.not_mem_nil) hq hshown

end Dosiz.Nesting
