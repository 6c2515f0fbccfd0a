/-
  Dosiz/ChildExit.lean
  ====================
  **A child's exit unwinds its run loops.**

  AH=4C inside a child answers `CBRET_STOP`, which breaks one run loop.  Every handler
  that waits above the child's AH=4B has to pass the stop on.  AX=0300 looks for the
  pending exit and does; AX=0301, AX=0302 and the real-mode callbacks do not.

  `settle` is the state in which guest code runs again.  It is the parent's, with the
  child's code in AL, if and only if every level above the child's AH=4B is an AX=0300.
-/
import Dosiz.Nesting

namespace Dosiz.Nesting

open ByteMemory Machine Transition

variable {eng : Engine}

/-! ### One parent for each child -/

/-- There is one entry of the process stack for each AH=4B that waits. -/
def Balanced (s : State) : Prop := s.m.processStack.length = s.levels.countP Level.isExec

theorem startChild_processStack (m : Machine) (psp env : Nat) (regs : InitialRegs) :
    (startChild eng m psp env regs).processStack = processState m psp env :: m.processStack :=
  (sameGlobals_startChild eng m psp env regs).processStack

theorem int21_4C_length (m : Machine) :
    (int21_4C m).processStack.length = m.processStack.length := by
  unfold int21_4C
  split
  · rfl
  · rename_i ps rest hps
    simp [hps]

theorem execEnd_nil {saved : ExecSaved} {m : Machine} (h : m.processStack = []) :
    execEnd eng saved m = (m, false) := by
  unfold execEnd
  rw [h]

/-- The handle calls write the handle table, the host's descriptors and AX. -/
structure HandleFrame (m m' : Machine) : Prop where
  eq : m' = { m with cpu := m'.cpu, handles := m'.handles, fds := m'.fds }

theorem HandleFrame.refl (m : Machine) : HandleFrame m m := ⟨rfl⟩

theorem HandleFrame.trans {m m' m'' : Machine} (h₁ : HandleFrame m m') (h₂ : HandleFrame m' m'') :
    HandleFrame m m'' := by
  refine ⟨?_⟩
  rw [h₂.eq, h₁.eq]

theorem handleFrame_setHandle (m : Machine) (h : Nat) (fd : Option Nat) :
    HandleFrame m (setHandle m h fd) := ⟨rfl⟩

theorem handleFrame_setFd (m : Machine) (fd : Nat) (file : Option Nat) : HandleFrame m (setFd m fd file) :=
  ⟨rfl⟩

theorem handleFrame_setR16 (m : Machine) (r : Reg) (v : Nat) : HandleFrame m (m.setR16 r v) := ⟨rfl⟩

theorem handleFrame_failWith (m : Machine) (code : Nat) : HandleFrame m (failWith m code).1 := ⟨rfl⟩

theorem handleFrame_giveHandle (m : Machine) (fd : Nat) : HandleFrame m (giveHandle m fd).1 := by
  unfold giveHandle
  split
  · exact (handleFrame_setFd m fd none).trans (handleFrame_failWith _ _)
  · exact (handleFrame_setHandle m _ _).trans (handleFrame_setR16 _ _ _)

theorem fileCall_frame (call : FileCall) (m : Machine) : HandleFrame m (call.serve m).1 := by
  have hclose : ∀ fd h, HandleFrame m (setHandle (setFd m fd none) h none) := fun fd h =>
    (handleFrame_setFd m fd none).trans (handleFrame_setHandle _ h none)
  cases call with
  | open_ opened =>
    simp only [FileCall.serve, openHandle]
    split
    · exact handleFrame_failWith m _
    · exact (handleFrame_setFd m _ _).trans (handleFrame_giveHandle _ _)
  | close =>
    simp only [FileCall.serve, int21_3E]
    split_ifs
    · exact HandleFrame.refl m
    · split
      · exact handleFrame_failWith m _
      · exact hclose _ _
  | dup answer =>
    simp only [FileCall.serve, int21_45]
    split
    · exact handleFrame_failWith m _
    · split
      · exact handleFrame_failWith m _
      · exact (handleFrame_setFd m _ _).trans (handleFrame_giveHandle _ _)
  | forceDup answer =>
    simp only [FileCall.serve, int21_46]
    split
    · exact handleFrame_failWith m _
    · split_ifs
      · exact handleFrame_failWith m _
      · exact handleFrame_setFd m _ _
      · cases m.handles m.cx with
        | none =>
          split
          · exact handleFrame_failWith m _
          · exact (handleFrame_setFd m _ _).trans (handleFrame_setHandle _ _ _)
        | some fd =>
          split
          · exact (hclose fd _).trans (handleFrame_failWith _ _)
          · exact ((hclose fd _).trans (handleFrame_setFd _ _ _)).trans (handleFrame_setHandle _ _ _)

theorem fileCall_processStack (call : FileCall) (m : Machine) :
    (call.serve m).1.processStack = m.processStack := by
  rw [(fileCall_frame call m).eq]

theorem dosMemory_frame : ∀ svc ∈ dosMemory, Answers ServiceFrame svc := by
  simp only [dosMemory, List.forall_mem_cons, List.not_mem_nil, IsEmpty.forall_iff, implies_true,
    and_true]
  refine ⟨?_, ?_, ?_⟩
  · intro m r h
    unfold int21_48 at h
    split at h
    · cases h
    · have hm := serviceFrame_mcbAllocate ‹_›
      dsimp only at h hm
      split_ifs at h
      · cases h
        exact hm.trans (serviceFrame_setR16s _ _)
      · cases h
        exact hm.trans (serviceFrame_setR16 _ _ _)
  · intro m r h
    unfold int21_49 at h
    dsimp only at h
    split_ifs at h
    · cases h
      exact serviceFrame_mcbFree _ _
    · cases h
      exact (serviceFrame_mcbFree _ _).trans (serviceFrame_failWith _ _)
  · intro m r h
    unfold int21_4A at h
    dsimp only at h
    split_ifs at h
    · cases h
      exact (imageFrame_setMem m _).loader.serviceFrame
    · cases h
      exact ServiceFrame.refl m
    · cases h
      exact serviceFrame_mcbResize _ _ _
    · cases h
      exact (serviceFrame_mcbResize _ _ _).trans (serviceFrame_setR16s _ _)

theorem hostUse_frame {m m' : Machine} {u : HostUse} (h : u.apply m = some m') : ServiceFrame m m' := by
  cases u with
  | pmAlloc bytes =>
    cases h
    exact serviceFrame_pmAlloc m _
  | pmFree base =>
    cases h
    exact serviceFrame_pmFree m _
  | mcbAllocate need =>
    simp only [HostUse.apply, Option.map_eq_some_iff] at h
    obtain ⟨r, hr, rfl⟩ := h
    exact serviceFrame_mcbAllocate hr
  | mcbFree dataSeg =>
    cases h
    exact serviceFrame_mcbFree m _

/-- Breaking a level's loop takes an entry off the process stack when the level is an AH=4B. -/
theorem finish_processStack (l : Level) (m : Machine) :
    (l.finish eng m).1.processStack =
      if l.isExec then m.processStack.tail else m.processStack := by
  cases l with
  | exec saved =>
    simp only [Level.finish, Level.isExec, if_true]
    cases hps : m.processStack with
    | nil => rw [execEnd_nil hps, hps, List.tail_nil]
    | cons ps rest =>
      rw [(execEnd_spec eng saved hps).1.processStack]
      show m.processStack.tail = _
      rw [hps]
  | realMode svc saved => exact (sameGlobals_leaveRm eng svc saved m).processStack
  | callback saved => exact (sameGlobals_leaveRmcb eng saved m).processStack

/-- What a step does to the levels and to the process stack. -/
theorem step_levels {s s' : State} {e : Event} (hs : step eng s e s') :
    (s'.levels = s.levels ∧ s'.m.processStack = s.m.processStack) ∨
    (∃ l, s'.levels = l :: s.levels ∧ l.isExec = false ∧ s'.m.processStack = s.m.processStack) ∨
    (∃ l ps, s'.levels = l :: s.levels ∧ l.isExec = true ∧ s'.m.processStack = ps :: s.m.processStack) ∨
    (s'.levels = s.levels ∧ s'.m.processStack = (int21_4C s.m).processStack) ∨
    ∃ l, e = .unwind ∧ s.levels = l :: s'.levels ∧
      s'.m.processStack = if l.isExec then s.m.processStack.tail else s.m.processStack := by
  cases e with
  | other m' =>
    obtain ⟨-, hm, rfl⟩ := hs
    exact Or.inl ⟨rfl, hm.processStack⟩
  | memory svc =>
    obtain ⟨-, hsvc, m', hm, rfl⟩ := hs
    obtain ⟨r, hr, rfl⟩ := Option.map_eq_some_iff.mp hm
    exact Or.inl ⟨rfl, (dosMemory_frame svc hsvc s.m r hr).processStack⟩
  | host u =>
    obtain ⟨-, m', hm, rfl⟩ := hs
    exact Or.inl ⟨rfl, (hostUse_frame hm).processStack⟩
  | files call =>
    obtain ⟨-, rfl⟩ := hs
    exact Or.inl ⟨rfl, fileCall_processStack call s.m⟩
  | int31 =>
    obtain ⟨-, -, m', hm, rfl⟩ := hs
    exact Or.inl ⟨rfl, (dosizInt31_frame hm).processStack⟩
  | dpmiEntry =>
    obtain ⟨-, rfl⟩ := hs
    exact Or.inl ⟨rfl, (entryFrame_dosizDpmiEntry eng s.m).processStack⟩
  | enterRm svc =>
    obtain ⟨-, rfl⟩ := hs
    exact Or.inr (Or.inl ⟨_, rfl, rfl, (sameGlobals_enterRm eng svc s.m).processStack⟩)
  | enterRmcb idx =>
    obtain ⟨cb, -, -, -, rfl⟩ := hs
    exact Or.inr (Or.inl ⟨_, rfl, rfl, (sameGlobals_enterRmcb eng cb s.m).processStack⟩)
  | exec host =>
    obtain ⟨m', r, -, hm, rfl⟩ := hs
    obtain ⟨rfl, hf⟩ | ⟨m₁, psp, env, regs, hf, rfl, rfl⟩ := int21_4B_cases hm
    · exact Or.inl ⟨rfl, hf.processStack⟩
    · refine Or.inr (Or.inr (Or.inl ⟨_, processState m₁ psp env, rfl, rfl, ?_⟩))
      rw [startChild_processStack, hf.processStack]
  | exit =>
    obtain ⟨-, -, rfl⟩ := hs
    exact Or.inr (Or.inr (Or.inr (Or.inl ⟨rfl, rfl⟩)))
  | stopCallback =>
    obtain ⟨-, -, rfl⟩ := hs
    exact Or.inl ⟨rfl, rfl⟩
  | unwind =>
    obtain ⟨l, rest, -, hl, rfl⟩ := hs
    exact Or.inr (Or.inr (Or.inr (Or.inr ⟨l, rfl, hl, finish_processStack l s.m⟩)))

theorem step_balanced {s s' : State} {e : Event} (h : Balanced s) (hs : step eng s e s') :
    Balanced s' := by
  unfold Balanced at h ⊢
  rcases step_levels hs with ⟨hl, hp⟩ | ⟨l, hl, hex, hp⟩ | ⟨l, ps, hl, hex, hp⟩ | ⟨hl, hp⟩ | ⟨l, -, hl, hp⟩
  · rw [hl, hp, h]
  · rw [hl, hp, h, List.countP_cons_of_neg (by simp [hex])]
  · rw [hl, hp, List.length_cons, h, List.countP_cons_of_pos hex]
  · rw [hl, hp, int21_4C_length, h]
  · rw [hl, List.countP_cons] at h
    rw [hp]
    cases hex : l.isExec with
    | true =>
      simp only [hex, if_true] at h ⊢
      rw [List.length_tail, h]
      omega
    | false =>
      simp only [hex, Bool.false_eq_true, if_false, Nat.add_zero] at h ⊢
      exact h

/-! ### Where the stop ends -/

/-- Break the loops that are to break, from the innermost: the state in which guest code runs
    again. -/
def settle (eng : Engine) (m : Machine) : List Level → State
  | [] => ⟨m, [], true⟩
  | l :: rest =>
    if (l.finish eng m).2 then settle eng (l.finish eng m).1 rest
    else ⟨(l.finish eng m).1, rest, false⟩

/-- The unwinding steps lead to `settle`. -/
theorem run_settle (m : Machine) (ls : List Level) :
    ∃ n, Run (step eng) ⟨m, ls, true⟩ (List.replicate n .unwind) (settle eng m ls) := by
  induction ls generalizing m with
  | nil => exact ⟨0, .nil _⟩
  | cons l rest ih =>
    have hone : step eng ⟨m, l :: rest, true⟩ .unwind
        ⟨(l.finish eng m).1, rest, (l.finish eng m).2⟩ := ⟨l, rest, rfl, rfl, rfl⟩
    unfold settle
    cases hf : (l.finish eng m).2 with
    | true =>
      obtain ⟨n, hn⟩ := ih (l.finish eng m).1
      rw [hf] at hone
      exact ⟨n + 1, by simpa [List.replicate_succ] using .cons hone hn⟩
    | false =>
      rw [hf] at hone
      exact ⟨1, by simpa using .single hone⟩

/-- Only an unwinding step is possible while a loop is to break. -/
theorem step_of_stop {m : Machine} {ls : List Level} {e : Event} {u : State}
    (h : step eng ⟨m, ls, true⟩ e u) : e = .unwind ∧ ∃ l rest, ls = l :: rest ∧
      u = ⟨(l.finish eng m).1, rest, (l.finish eng m).2⟩ := by
  cases e with
  | unwind =>
    obtain ⟨l, rest, -, hl, hu⟩ := h
    exact ⟨rfl, l, rest, hl, hu⟩
  | enterRmcb idx =>
    obtain ⟨cb, hstop, -⟩ := h
    cases hstop
  | exec host =>
    obtain ⟨m', r, hstop, -⟩ := h
    cases hstop
  | other | memory | host | files | int31 | dpmiEntry | enterRm | exit | stopCallback => cases h.1

/-- Whatever runs next, it runs after the loops have broken. -/
theorem settle_first {m : Machine} {ls : List Level} {es : List Event} {u : State}
    (h : Run (step eng) ⟨m, ls, true⟩ es u) (hu : u.stop = false) :
    ∃ n fs, es = List.replicate n .unwind ++ fs ∧
      Run (step eng) ⟨m, ls, true⟩ (List.replicate n .unwind) (settle eng m ls) ∧
      Run (step eng) (settle eng m ls) fs u := by
  induction ls generalizing m es with
  | nil =>
    cases h with
    | nil => cases hu
    | cons he _ =>
      obtain ⟨-, l, rest, hl, -⟩ := step_of_stop he
      cases hl
  | cons l rest ih =>
    cases h with
    | nil => cases hu
    | cons he hrest =>
      have hone := he
      obtain ⟨rfl, l', rest', hl, rfl⟩ := step_of_stop he
      cases hl
      unfold settle
      cases hf : (l.finish eng m).2 with
      | true =>
        rw [hf] at hrest hone
        obtain ⟨n, fs, rfl, hn, hfs⟩ := ih hrest
        refine ⟨n + 1, fs, by simp [List.replicate_succ], ?_, hfs⟩
        simpa [List.replicate_succ] using .cons hone hn
      | false =>
        rw [hf] at hrest hone
        exact ⟨1, _, rfl, .single hone, hrest⟩

/-! ### The levels above the child's AH=4B -/

/-- The level passes a stop on: an AX=0300 with an exit pending. -/
def Level.passes (m : Machine) (k : Level) : Bool := k.isSimulateInt && m.childExitPending

theorem passes_same {m r : Machine} (h : SameGlobals m r) (k : Level) : k.passes r = k.passes m := by
  rw [Level.passes, Level.passes, h.eq]

/-- A level that is no AH=4B leaves the globals. -/
theorem finish_inner (eng : Engine) {k : Level} {m : Machine} (hk : k.isExec = false) :
    (k.finish eng m).2 = k.passes m ∧ SameGlobals m (k.finish eng m).1 := by
  cases k with
  | exec saved => cases hk
  | callback saved => exact ⟨rfl, sameGlobals_leaveRmcb eng saved m⟩
  | realMode svc saved =>
    refine ⟨?_, sameGlobals_leaveRm eng svc saved m⟩
    have hpend : (segSet16 eng (m.setEip saved.eip) .cs (saved.segs .cs)).childExitPending =
        m.childExitPending := rfl
    cases svc with
    | simulateInt =>
      simp only [Level.finish, leaveRm, Level.passes, Level.isSimulateInt, reduceCtorEq, if_false, hpend,
        true_and, Bool.true_and]
      cases m.childExitPending with
      | true => rfl
      | false => rfl
    | callFar =>
      simp only [Level.finish, leaveRm, Level.passes, Level.isSimulateInt, reduceCtorEq, false_and, if_false,
        Bool.false_and]
    | callIret =>
      simp only [Level.finish, leaveRm, Level.passes, Level.isSimulateInt, reduceCtorEq, false_and, if_false,
        Bool.false_and]

/-- Through levels that pass it on the stop comes to the child's AH=4B. -/
theorem settle_through (eng : Engine) (rest : List Level) (saved : ExecSaved) {m : Machine}
    {inner : List Level} {ps : ProcessState} {tl : List ProcessState} (hin : ∀ k ∈ inner, k.isExec = false)
    (hps : m.processStack = ps :: tl) (hsim : ∀ k ∈ inner, k.passes m = true) :
    ∃ r, SameGlobals m r ∧
      settle eng m (inner ++ .exec saved :: rest) = ⟨(execEnd eng saved r).1, rest, false⟩ := by
  induction inner generalizing m with
  | nil =>
    refine ⟨m, SameGlobals.refl m, ?_⟩
    simp only [List.nil_append, settle, Level.finish, (execEnd_spec eng saved hps).2.2, Bool.false_eq_true,
      if_false]
  | cons k inner ih =>
    obtain ⟨hstop, hg⟩ := finish_inner eng (m := m) (hin k List.mem_cons_self)
    have hstop' : (k.finish eng m).2 = true := hstop.trans (hsim k List.mem_cons_self)
    obtain ⟨r, hr, hset⟩ := ih (fun k' hk' => hin k' (List.mem_cons_of_mem _ hk')) (hg.processStack.trans hps)
      (fun k' hk' => (passes_same hg k').trans (hsim k' (List.mem_cons_of_mem _ hk')))
    refine ⟨r, hg.trans hr, ?_⟩
    rw [List.cons_append, settle, if_pos hstop', hset]

/-- Any other level keeps it. -/
theorem settle_kept (eng : Engine) (rest : List Level) (saved : ExecSaved) {m : Machine}
    {inner : List Level} (hin : ∀ k ∈ inner, k.isExec = false) (hsim : ¬ ∀ k ∈ inner, k.passes m = true) :
    ∃ r post, settle eng m (inner ++ .exec saved :: rest) = ⟨r, post ++ .exec saved :: rest, false⟩ := by
  induction inner generalizing m with
  | nil => exact absurd (fun k hk => absurd hk List.not_mem_nil) hsim
  | cons k inner ih =>
    obtain ⟨hstop, hg⟩ := finish_inner eng (m := m) (hin k List.mem_cons_self)
    cases hk : k.passes m with
    | false =>
      refine ⟨(k.finish eng m).1, inner, ?_⟩
      rw [List.cons_append, settle, if_neg (by simp [hstop, hk])]
    | true =>
      have hsim' : ¬ ∀ k' ∈ inner, k'.passes (k.finish eng m).1 = true := fun hall =>
        hsim (List.forall_mem_cons.mpr ⟨hk, fun k' hk' => (passes_same hg k').symm.trans (hall k' hk')⟩)
      obtain ⟨r, post, hset⟩ := ih (fun k' hk' => hin k' (List.mem_cons_of_mem _ hk')) hsim'
      refine ⟨r, post, ?_⟩
      rw [List.cons_append, settle, if_pos (hstop.trans hk), hset]

/-- **The exit of the innermost child.**  In every state of a run from the top-level program, with
    the levels `inner` started since the AH=4B of the innermost child, AH=4C with code AL makes
    loops break, by unwinding steps only, until guest code runs again in a state `t` that
    every continuation goes through.  `t` is the parent's with the code in AL and for AH=4D, nothing
    pending, if and only if every level of `inner` is an AX=0300 call. -/
theorem childExit_unwinds_iff {m₀ : Machine} {es : List Event} {s : State}
    {inner rest : List Level} {saved : ExecSaved} (h₀ : m₀.processStack = [])
    (hrun : Run (step eng) ⟨m₀, [], false⟩ es s) (hstop : s.stop = false)
    (hl : s.levels = inner ++ .exec saved :: rest) (hin : ∀ k ∈ inner, k.isExec = false) :
    ∃ s' t, step eng s .exit s' ∧ t.stop = false ∧
      (∃ n, Run (step eng) s' (List.replicate n .unwind) t) ∧
      (∀ fs u, Run (step eng) s' fs u → u.stop = false →
        ∃ n gs, fs = List.replicate n .unwind ++ gs ∧ Run (step eng) t gs u) ∧
      ((t.levels = rest ∧ t.m.r8l .eax = s.m.r8l .eax ∧ (int21_4D t.m).ax = s.m.r8l .eax ∧
          t.m.childExitPending = false) ↔
        ∀ k ∈ inner, k.isSimulateInt = true) := by
  have hbal : Balanced s := hrun.invariant (fun _ _ _ => step_balanced) (by simp [Balanced, h₀])
  have hne : s.m.processStack ≠ [] := by
    intro hnil
    rw [Balanced, hnil, hl, List.countP_append, List.countP_cons] at hbal
    simp [Level.isExec] at hbal
  obtain ⟨ps, tl, hps⟩ := List.exists_cons_of_ne_nil hne
  have hps' : (int21_4C s.m).processStack = { ps with childExitCode := s.m.r8l .eax } :: tl := by
    rw [int21_4C, hps]
  have hp' : (int21_4C s.m).childExitPending = true := by
    rw [int21_4C, hps]
  have hal : s.m.r8l .eax < 256 := Nat.mod_lt _ (by decide)
  have hpass : (∀ k ∈ inner, k.passes (int21_4C s.m) = true) ↔ ∀ k ∈ inner, k.isSimulateInt = true := by
    simp only [Level.passes, hp', Bool.and_true]
  rw [← hpass]
  refine ⟨⟨int21_4C s.m, inner ++ .exec saved :: rest, true⟩,
    settle eng (int21_4C s.m) (inner ++ .exec saved :: rest), ⟨hstop, hne, by rw [hl]⟩, ?_,
    run_settle _ _, ?_, ?_⟩
  · by_cases hsim : ∀ k ∈ inner, k.passes (int21_4C s.m) = true
    · obtain ⟨r, -, hset⟩ := settle_through eng rest saved hin hps' hsim
      rw [hset]
    · obtain ⟨r, post, hset⟩ := settle_kept eng rest saved hin hsim
      rw [hset]
  · intro fs u hfs hu
    obtain ⟨n, gs, rfl, -, hgs⟩ := settle_first hfs hu
    exact ⟨n, gs, rfl, hgs⟩
  · constructor
    · rintro ⟨hlev, -⟩
      by_contra hsim
      obtain ⟨r, post, hset⟩ := settle_kept eng rest saved hin hsim
      rw [hset] at hlev
      have hlen := congrArg List.length hlev
      simp only [List.length_append, List.length_cons] at hlen
      omega
    · intro hsim
      obtain ⟨r, hr, hset⟩ := settle_through eng rest saved hin hps' hsim
      have hrps := hr.processStack.trans hps'
      obtain ⟨hg, hcode, -⟩ := execEnd_spec eng saved hrps
      have hcode' : (execEnd eng saved r).1.r8l .eax = s.m.r8l .eax := by
        rw [hcode]
        exact Nat.mod_eq_of_lt hal
      have hlast : (execEnd eng saved r).1.lastChildExit = s.m.r8l .eax := by
        rw [hg.eq]
        rfl
      have hpend : (execEnd eng saved r).1.childExitPending = false := by
        rw [hg.eq]
        rfl
      rw [hset]
      refine ⟨rfl, hcode', ?_, hpend⟩
      show ((execEnd eng saved r).1.setR16 .eax _).r16 .eax = _
      rw [r16_setR16, hlast]
      exact Nat.mod_eq_of_lt (by omega)

/-! ### A child with one nested call -/

/-- A host on which every path is a COM file of one byte. -/
def tinyHost : Host where
  resolvePath := id
  contents := fun _ => some [0xC3]
  bypassExtender := false
  leAsMz := false

theorem tiny_runs : ((int21_4B tableEngine tinyHost bootMachine).bind (·.2)).isSome = true := by
  decide +kernel

/-- From boot, the tiny child is started and makes the call `svc`. -/
theorem run_tiny (svc : RmService) : ∃ s saved k, Run (step tableEngine) ⟨bootMachine, [], false⟩
    [.exec tinyHost, .enterRm svc] s ∧ s.stop = false ∧
      s.levels = [.realMode svc k] ++ .exec saved :: [] ∧ s.m.processStack ≠ [] := by
  obtain ⟨saved, hsaved⟩ := Option.isSome_iff_exists.mp tiny_runs
  obtain ⟨⟨m', r⟩, hexec, hr⟩ := Option.bind_eq_some_iff.mp hsaved
  dsimp only at hr
  subst hr
  obtain ⟨hnone, -⟩ | ⟨m₁, psp, env, regs, -, -, rfl⟩ := int21_4B_cases hexec
  · cases hnone
  · refine ⟨_, saved, _, .cons ⟨_, _, rfl, hexec, rfl⟩ (.single ⟨rfl, rfl⟩), rfl, rfl, ?_⟩
    rw [(sameGlobals_enterRm _ _ _).processStack, startChild_processStack]
    exact List.cons_ne_nil _ _

/-- AH=4C inside an AX=0300 call of the child ends the child. -/
theorem childExit_unwinds_tiny : ∃ s s' t, Run (step tableEngine) ⟨bootMachine, [], false⟩
    [.exec tinyHost, .enterRm .simulateInt] s ∧ step tableEngine s .exit s' ∧
      (∃ n, Run (step tableEngine) s' (List.replicate n .unwind) t) ∧ t.levels = [] ∧
      t.m.r8l .eax = s.m.r8l .eax ∧ t.m.childExitPending = false := by
  obtain ⟨s, saved, k, hrun, hstop, hl, -⟩ := run_tiny .simulateInt
  obtain ⟨s', t, hexit, -, hn, -, hiff⟩ :=
    childExit_unwinds_iff rfl hrun hstop hl (by simp [Level.isExec])
  obtain ⟨hlev, hal, -, hp⟩ := hiff.mpr (by simp [Level.isSimulateInt])
  exact ⟨s, s', t, hrun, hexit, hn, hlev, hal, hp⟩

/-- AH=4C inside an AX=0301 call of the child: the child's own code runs on, in its level, with the
    exit still pending. -/
theorem childExit_lost_in_callFar : ∃ s s' t saved, Run (step tableEngine) ⟨bootMachine, [], false⟩
    [.exec tinyHost, .enterRm .callFar] s ∧ step tableEngine s .exit s' ∧
      Run (step tableEngine) s' [.unwind] t ∧ t.stop = false ∧ t.levels = [.exec saved] ∧
      t.m.childExitPending = true := by
  obtain ⟨s, saved, k, hrun, hstop, hl, hps⟩ := run_tiny .callFar
  have hp : (int21_4C s.m).childExitPending = true := by
    unfold int21_4C
    split
    · contradiction
    · rfl
  have hg := sameGlobals_leaveRm tableEngine .callFar k (int21_4C s.m)
  refine ⟨s, _, _, saved, hrun, ⟨hstop, hps, rfl⟩, .single ⟨_, _, rfl, hl, rfl⟩, rfl, rfl, ?_⟩
  show (leaveRm tableEngine .callFar k (int21_4C s.m)).1.childExitPending = true
  rw [hg.eq]
  exact hp

end Dosiz.Nesting
