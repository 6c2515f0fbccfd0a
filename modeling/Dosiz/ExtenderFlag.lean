/-
  Dosiz/ExtenderFlag.lean
  =======================
  **Who is told that DPMI is absent** (INT 2Fh AX=1687 in `bridge.cc`).

  `load_exe_at` sets `s_extender_bound` when it finds the signature of a DOS extender in the stub of
  the file, so that the extender brings its own protected mode up; nothing ever clears it.  AX=1687
  answers the program that runs, whichever that is.  `dpmiAnswer_right_iff` says, for the programs of
  a nest of AH=4B calls, when the answer is right.
-/
import Dosiz.ChildEnv

namespace Dosiz.Extender

open ByteMemory Machine EnvBlock Transition ChildEnv

/-! ### The answer -/

/-- AX=1687, with the debug overrides: DPMI is absent (AX = FFFFh), or here is its entry. -/
def int2f_1687 (eng : Engine) (forceDpmi noDpmi : Bool) (entrySeg entryOff : Nat) (m : Machine) : Machine :=
  if (m.extenderBound && !forceDpmi) || noDpmi then m.setR16 .eax 0xFFFF
  else
    let m := (m.setR16 .eax 0).setR16 .ebx 1
    let m := ((m.setR8l .ecx 3).setR8h .edx 0).setR8l .edx 0x5A
    (segSet16 eng (m.setR16 .esi 0) .es entrySeg).setR16 .edi entryOff

/-- Without the overrides the flag decides. -/
theorem int2f_1687_absent (eng : Engine) (entrySeg entryOff : Nat) (m : Machine) :
    (int2f_1687 eng false false entrySeg entryOff m).ax = 0xFFFF ↔ m.extenderBound = true := by
  unfold int2f_1687
  cases hflag : m.extenderBound with
  | true => exact iff_of_true (r16_setR16 m .eax 0xFFFF) rfl
  | false =>
    refine iff_of_false (fun hax => ?_) Bool.false_ne_true
    rw [if_neg (by decide)] at hax
    have hregs : ∀ (q : Machine), (segSet16 eng q .es entrySeg).ax = q.ax := fun _ => rfl
    have h8l : ∀ (q : Machine) v, (q.setR8l .ecx v).ax = q.ax ∧ (q.setR8l .edx v).ax = q.ax := by
      intro q v
      simp only [ax, r16, setR8l, r32_setR32_of_ne q _ (show Reg.eax ≠ .ecx by decide),
        r32_setR32_of_ne q _ (show Reg.eax ≠ .edx by decide), and_self]
    rw [ax, r16_setR16_of_ne _ _ (by decide), ← ax, hregs, ax, r16_setR16_of_ne _ _ (by decide), ← ax,
      (h8l _ _).2, ax, r16_setR8h_of_ne _ _ (by decide), ← ax, (h8l _ _).1, ax,
      r16_setR16_of_ne _ _ (by decide), r16_setR16] at hax
    exact absurd hax (by decide)

/-! ### What loading does to the flag -/

/-- The program's file is an MZ one, and the loader's scan finds a DOS extender in it. -/
def boundFile (host : Host) (path : List Nat) : Bool :=
  let f := (host.contents path).getD []
  (hasMz f || isExePath path) && !(f.length < 0x1C || !(hasMz f || f.take 2 = [0x5A, 0x4D])) &&
    extenderDetected host f = some true

section Loading

variable {host : Host} {path : List Nat} {m : Machine}

theorem loadProgramAt_extender {psp : Nat} {r : Machine × Option InitialRegs}
    (h : loadProgramAt host path m psp = some r) :
    r.1.extenderBound = (m.extenderBound || boundFile host path) := by
  unfold loadProgramAt at h
  unfold boundFile
  dsimp only at h ⊢
  generalize (host.contents path).getD [] = f at h ⊢
  by_cases hexe : (hasMz f || isExePath path) = true
  · rw [if_pos hexe] at h
    rw [hexe, Bool.true_and]
    unfold loadExeAt at h
    by_cases hbad : f.length < 0x1C ∨ (!(hasMz f || f.take 2 = [0x5A, 0x4D])) = true
    · rw [if_pos hbad] at h
      cases h
      have hno : (f.length < 0x1C || !(hasMz f || f.take 2 = [0x5A, 0x4D])) = true := by
        simpa using hbad
      rw [hno, Bool.not_true, Bool.false_and, Bool.or_false]
    · rw [if_neg hbad] at h
      have hyes : (f.length < 0x1C || !(hasMz f || f.take 2 = [0x5A, 0x4D])) = false := by
        simpa using hbad
      simp only [Option.bind_eq_bind, Option.bind_eq_some_iff] at h
      obtain ⟨extender, hscan, linear, -, h⟩ := h
      rw [hyes, Bool.not_false, Bool.true_and, hscan]
      have hframe : ImageFrame (if extender then bindExtender m else m) r.1 := by
        cases linear with
        | none => exact imageFrame_loadMz h
        | some le => exact imageFrame_loadLe h
      rw [hframe.extender]
      cases extender
      · simp
      · simp [bindExtender]
  · rw [if_neg hexe] at h
    cases h
    rw [Bool.not_eq_true] at hexe
    rw [hexe, Bool.false_and, Bool.false_and, Bool.or_false]
    unfold loadComAt
    split_ifs <;> rfl

/-- AH=4B comes to the loader: the file is there, and there is room for the child. -/
def reachesLoader (host : Host) (m : Machine) : Bool :=
  (host.contents (execPath host m)).isSome && (childSpace m).any fun r => r.2 ≠ 0

theorem loadChild_extender {b : ChildBlock} (h : loadChild host path m = some b) :
    b.machine.extenderBound =
      (m.extenderBound || (((childSpace m).any fun r => r.2 ≠ 0) && boundFile host path)) := by
  unfold loadChild at h
  cases hspace : childSpace m with
  | none =>
    rw [hspace] at h
    cases h
  | some r =>
    have hsame := (imageFrame_childSpace hspace).extender
    rw [hspace] at h
    dsimp only at h
    rw [Option.any_some]
    by_cases hpsp : r.2 = 0
    · rw [if_pos hpsp] at h
      cases h
      rw [hpsp, show decide ((0 : Nat) ≠ 0) = false from rfl, Bool.false_and, Bool.or_false]
      exact hsame
    · rw [if_neg hpsp] at h
      rw [decide_eq_true hpsp, Bool.true_and]
      split at h
      · cases h
      · rename_i hload
        cases h
        have hb := loadProgramAt_extender hload
        rw [hsame] at hb
        exact (imageFrame_mcbFree _ _).extender.trans hb
      · rename_i hload
        cases h
        have hb := loadProgramAt_extender hload
        rw [hsame] at hb
        exact hb

/-- AH=4B, whatever it comes to, binds the extender of the file it loads. -/
theorem int21_4B_extender {eng : Engine} {m' : Machine} {r : Option ExecSaved}
    (h : int21_4B eng host m = some (m', r)) : m'.extenderBound =
      (m.extenderBound || (reachesLoader host m && boundFile host (execPath host m))) := by
  unfold int21_4B at h
  unfold reachesLoader
  dsimp only at h
  rw [← execPath] at h
  cases hfile : host.contents (execPath host m) with
  | none =>
    rw [hfile] at h
    cases h
    simp [setCf]
    rfl
  | some f =>
    rw [hfile, if_neg (by simp)] at h
    rw [Option.isSome_some, Bool.true_and]
    cases hload : loadChild host (execPath host m) m with
    | none =>
      rw [hload] at h
      cases h
    | some b =>
      have hb := loadChild_extender hload
      rw [hload] at h
      rw [← hb]
      cases b with
      | failed q code =>
        cases h
        rfl
      | loaded q psp regs =>
        dsimp only at h
        split at h
        · cases h
        · rename_i halloc
          have henv := (imageFrame_mcbAllocate halloc).extender
          split_ifs at h
          · cases h
            exact (imageFrame_mcbFree _ _).extender.trans henv
          · cases h
            rw [(sameGlobals_startChild _ _ _ _ _).eq]
            exact henv

end Loading

/-! ### Sessions -/

/-- The machine; whether the program that runs is bound, and those that wait with their locals; and
    for every load so far whether its file was bound. -/
structure Session where
  machine : Machine
  own : Bool
  waiting : List (ExecSaved × Bool)
  loads : List Bool

/-- `other` is guest code and every call that loads nothing and ends no program; `load` is a load
    that starts no program. -/
inductive SessionEvent where
  | other (m : Machine)
  | load (host : Host) (path : List Nat) (seg : Nat)
  | exec (host : Host)
  | exit

/-- The loads after an AH=4B call. -/
def loadsAfter (host : Host) (s : Session) : List Bool :=
  if reachesLoader host s.machine then boundFile host (execPath host s.machine) :: s.loads else s.loads

def sessionStep (eng : Engine) (s : Session) (e : SessionEvent) (t : Session) : Prop :=
  match e with
  | .other m => m.extenderBound = s.machine.extenderBound ∧ m.processStack = s.machine.processStack ∧
      t = { s with machine := m }
  | .load host path seg => ∃ q r m, q.extenderBound = s.machine.extenderBound ∧
      loadProgramAt host path q seg = some r ∧ m.extenderBound = r.1.extenderBound ∧
      m.processStack = s.machine.processStack ∧
      t = { s with machine := m, loads := boundFile host path :: s.loads }
  | .exec host => ∃ m r, int21_4B eng host s.machine = some (m, r) ∧
      t = match r with
        | none => { s with machine := m, loads := loadsAfter host s }
        | some saved => ⟨m, boundFile host (execPath host s.machine), (saved, s.own) :: s.waiting,
            loadsAfter host s⟩
  | .exit => ∃ saved own rest, s.waiting = (saved, own) :: rest ∧
      t = ⟨(execEnd eng saved (int21_4C s.machine)).1, own, rest, s.loads⟩

/-- The first program, loaded with the flag clear. -/
def Started (host : Host) (path : List Nat) (s : Session) : Prop :=
  ∃ q m regs, q.extenderBound = false ∧ loadProgramAt host path q PSP_SEG = some (m, some regs) ∧
    s.machine.extenderBound = m.extenderBound ∧ s.machine.processStack = [] ∧ s.waiting = [] ∧
    s.own = boundFile host path ∧ s.loads = [boundFile host path]

/-- The flag is set once a bound file was loaded, and every program was loaded. -/
structure FlagKnown (s : Session) : Prop where
  flag : s.machine.extenderBound = s.loads.any id
  own : s.own = true → true ∈ s.loads
  waiting : ∀ w ∈ s.waiting, w.2 = true → true ∈ s.loads
  stack : s.machine.processStack.length = s.waiting.length

theorem Started.flagKnown {host : Host} {path : List Nat} {s : Session} (h : Started host path s) :
    FlagKnown s := by
  obtain ⟨q, m, regs, hq, hload, hflag, hstack, hwaiting, hown, hloads⟩ := h
  refine ⟨?_, fun ho => ?_, fun w hw => ?_, ?_⟩
  · rw [hflag, loadProgramAt_extender hload, hq, hloads]
    simp
  · rw [hloads, ← hown, ho]
    exact List.mem_singleton_self true
  · rw [hwaiting] at hw
    exact absurd hw List.not_mem_nil
  · rw [hstack, hwaiting]
    rfl

theorem loads_subset (host : Host) (s : Session) : s.loads ⊆ loadsAfter host s := by
  unfold loadsAfter
  split_ifs
  · exact List.subset_cons_self _ _
  · exact List.Subset.refl _

/-- A child that starts was loaded. -/
theorem started_reaches {eng : Engine} {host : Host} {m m' : Machine} {saved : ExecSaved}
    (h : int21_4B eng host m = some (m', some saved)) : reachesLoader host m = true := by
  unfold int21_4B at h
  unfold reachesLoader
  dsimp only at h
  rw [← execPath] at h
  cases hfile : host.contents (execPath host m) with
  | none =>
    rw [hfile] at h
    cases h
  | some f =>
    rw [hfile, if_neg (by simp)] at h
    unfold loadChild at h
    cases hspace : childSpace m with
    | none =>
      rw [hspace] at h
      cases h
    | some r =>
      by_cases hpsp : r.2 = 0
      · rw [hspace] at h
        dsimp only at h
        rw [if_pos hpsp] at h
        cases h
      · simp [hpsp]

theorem sessionStep_flagKnown {eng : Engine} {s t : Session} {e : SessionEvent} (h : FlagKnown s)
    (hs : sessionStep eng s e t) : FlagKnown t := by
  cases e with
  | other m =>
    obtain ⟨hflag, hstack, rfl⟩ := hs
    exact ⟨hflag.trans h.flag, h.own, h.waiting, (congrArg List.length hstack).trans h.stack⟩
  | load host path seg =>
    obtain ⟨q, r, m, hq, hload, hflag, hstack, rfl⟩ := hs
    refine ⟨?_, fun ho => List.mem_cons_of_mem _ (h.own ho),
      fun w hw hb => List.mem_cons_of_mem _ (h.waiting w hw hb), (congrArg List.length hstack).trans h.stack⟩
    dsimp only
    rw [hflag, loadProgramAt_extender hload, hq, h.flag, List.any_cons, id, Bool.or_comm]
  | exec host =>
    obtain ⟨m, r, hexec, rfl⟩ := hs
    have hflag : m.extenderBound = (loadsAfter host s).any id := by
      rw [int21_4B_extender hexec, h.flag, loadsAfter]
      split_ifs with hreach
      · rw [hreach, List.any_cons, Bool.true_and, id, Bool.or_comm]
      · rw [Bool.not_eq_true] at hreach
        rw [hreach, Bool.false_and, Bool.or_false]
    have hsub := loads_subset host s
    cases r with
    | none =>
      refine ⟨hflag, fun ho => hsub (h.own ho), fun w hw hb => hsub (h.waiting w hw hb), ?_⟩
      exact (congrArg List.length (failed_frame hexec).processStack).trans h.stack
    | some saved =>
      refine ⟨hflag, fun ho => ?_, fun w hw hb => ?_, ?_⟩
      · rw [loadsAfter, if_pos (started_reaches hexec), ← show _ = true from ho]
        exact List.mem_cons_self
      · rcases List.mem_cons.mp hw with rfl | hw
        · exact hsub (h.own hb)
        · exact hsub (h.waiting w hw hb)
      · rw [(started_globals hexec).2.2, h.stack, List.length_cons]
  | exit =>
    obtain ⟨saved, own, rest, hw, rfl⟩ := hs
    obtain ⟨-, -, hflag, hstack⟩ := ended_globals eng (n := rest.length) saved (by
      rw [h.stack, hw, List.length_cons])
    exact ⟨hflag.trans h.flag, h.waiting (saved, own) (hw ▸ List.mem_cons_self),
      fun v hv => h.waiting v (hw ▸ List.mem_cons_of_mem _ hv), hstack⟩

/-- AX=1687 of the program that runs answers that DPMI is absent exactly if its own file is bound. -/
def AnswersOwn (eng : Engine) (s : Session) : Prop :=
  ∀ entrySeg entryOff, (int2f_1687 eng false false entrySeg entryOff s.machine).ax = 0xFFFF ↔ s.own = true

/-- **Who is told that DPMI is absent.**  In every state of a run of loads, AX=1687 answers the program
    that runs for its own file exactly if that is bound, or no file loaded so far is. -/
theorem dpmiAnswer_right_iff {eng : Engine} {host : Host} {path : List Nat} {s₀ s : Session}
    {es : List SessionEvent} (h₀ : Started host path s₀) (hrun : Run (sessionStep eng) s₀ es s) :
    AnswersOwn eng s ↔ s.own = true ∨ true ∉ s.loads := by
  have h : FlagKnown s := hrun.invariant (fun _ _ _ => sessionStep_flagKnown) h₀.flagKnown
  have hflag : s.machine.extenderBound = true ↔ true ∈ s.loads := by
    rw [h.flag]
    simp
  have hanswer : AnswersOwn eng s ↔ (true ∈ s.loads ↔ s.own = true) := by
    constructor
    · intro hall
      rw [← hflag]
      exact (int2f_1687_absent eng 0 0 s.machine).symm.trans (hall 0 0)
    · intro hiff entrySeg entryOff
      exact (int2f_1687_absent eng entrySeg entryOff s.machine).trans (hflag.trans hiff)
  rw [hanswer]
  constructor
  · intro hiff
    by_cases hown : s.own = true
    · exact Or.inl hown
    · exact Or.inr fun hmem => hown (hiff.mp hmem)
  · rintro (hown | hnone)
    · exact iff_of_true (h.own hown) hown
    · exact iff_of_false hnone fun hown => hnone (h.own hown)

/-! ### A failed load -/

/-- An MZ file of 72 bytes that names DOS/4G and claims 8192 bytes: the scan finds it bound, and the
    load fails. -/
def truncated : List UInt8 :=
  [0x4D, 0x5A, 0, 0, 0x10, 0] ++ List.replicate 22 0 ++ [0x44, 0x4F, 0x53, 0x2F, 0x34, 0x47] ++
    List.replicate 26 0 ++ [0x44, 0, 0, 0] ++ List.replicate 8 0

/-- The empty path is that file, every other one a COM file of one byte. -/
def mixedHost : Host where
  resolvePath := id
  contents := fun path => some (if path = [] then truncated else [0xC3])
  bypassExtender := false
  leAsMz := false

/-- The first program: a COM file. -/
def plainSession : Session := ⟨bootMachine, false, [], [false]⟩

theorem plainSession_started : Started mixedHost (ascii "A.COM") plainSession := by
  obtain ⟨r, hr⟩ : ∃ r, loadProgramAt mixedHost (ascii "A.COM") bootMachine PSP_SEG = some r :=
    Option.isSome_iff_exists.mp (by decide +kernel)
  have hregs : (loadProgramAt mixedHost (ascii "A.COM") bootMachine PSP_SEG).bind (·.2) ≠ none := by
    decide +kernel
  rw [hr, Option.bind_some] at hregs
  obtain ⟨regs, hsome⟩ := Option.ne_none_iff_exists'.mp hregs
  have hbound : boundFile mixedHost (ascii "A.COM") = false := by decide +kernel
  obtain ⟨m, o⟩ := r
  dsimp only at hsome
  subst hsome
  refine ⟨bootMachine, m, regs, rfl, hr, ?_, rfl, rfl, hbound.symm, ?_⟩
  · rw [loadProgramAt_extender hr, hbound]
    rfl
  · rw [hbound]
    rfl

/-- It names the file `B`, a COM file too. -/
def askingB : Machine := { bootMachine with mem := writeb (fun _ => 0) 0 0x42 }

/-- The child is answered for its own file; once it has loaded the bound file, it is not. -/
theorem dpmiAnswer_right_iff_child : ∃ s t,
    Run (sessionStep tableEngine) plainSession [.other askingB, .exec mixedHost] s ∧
    s.waiting.length = 1 ∧ AnswersOwn tableEngine s ∧
    sessionStep tableEngine s (.load mixedHost [] 0x3000) t ∧ t.own = false ∧ ¬ AnswersOwn tableEngine t := by
  have hruns : ((int21_4B tableEngine mixedHost askingB).bind (·.2)).isSome = true := by decide +kernel
  obtain ⟨saved, hsaved⟩ := Option.isSome_iff_exists.mp hruns
  obtain ⟨⟨m, r⟩, hexec, hr⟩ := Option.bind_eq_some_iff.mp hsaved
  dsimp only at hr
  subst hr
  have hplain : boundFile mixedHost (execPath mixedHost askingB) = false := by decide +kernel
  have hloads : reachesLoader mixedHost askingB = true := by decide +kernel
  have hbound : boundFile mixedHost [] = true := by decide +kernel
  let asking : Session := { plainSession with machine := askingB }
  let s : Session := ⟨m, false, [(saved, false)], [false, false]⟩
  have hother : sessionStep tableEngine plainSession (.other askingB) asking := ⟨rfl, rfl, rfl⟩
  have hstart : sessionStep tableEngine asking (.exec mixedHost) s := by
    refine ⟨m, some saved, hexec, ?_⟩
    simp only [asking, loadsAfter, hloads, hplain, if_true, plainSession, s]
  have hrun : Run (sessionStep tableEngine) plainSession [.other askingB, .exec mixedHost] s :=
    .cons hother (.cons hstart (.nil s))
  have hflag : m.extenderBound = false := by
    have h : m.extenderBound = _ := int21_4B_extender hexec
    rw [h, hplain, Bool.and_false]
    rfl
  -- the load of the bound file fails, and leaves the flag set
  obtain ⟨l, hl⟩ : ∃ l, loadProgramAt mixedHost [] bootMachine 0x3000 = some l :=
    Option.isSome_iff_exists.mp (by decide +kernel)
  let t : Session := ⟨{ m with extenderBound := l.1.extenderBound }, false, [(saved, false)], [true, false, false]⟩
  have hload : sessionStep tableEngine s (.load mixedHost [] 0x3000) t := by
    refine ⟨bootMachine, l, t.machine, hflag.symm, hl, rfl, rfl, ?_⟩
    simp only [hbound, s, t]
  have hnone : true ∉ [false, false] := by decide
  refine ⟨s, t, hrun, rfl, (dpmiAnswer_right_iff plainSession_started hrun).mpr (Or.inr hnone), hload, rfl, ?_⟩
  intro hall
  obtain hown | hnone := (dpmiAnswer_right_iff plainSession_started (hrun.append (.cons hload (.nil t)))).mp hall
  · exact Bool.false_ne_true hown
  · exact hnone List.mem_cons_self

/-- It tries to run the other file, which fails; then AX=1687 answers it that DPMI is absent. -/
theorem failed_load_hides_dpmi : ∃ s, Started mixedHost (ascii "A.COM") plainSession ∧
    Run (sessionStep tableEngine) plainSession [.exec mixedHost] s ∧ s.own = false ∧
    ¬ AnswersOwn tableEngine s := by
  have hfails : (int21_4B tableEngine mixedHost bootMachine).map (fun r => (r.1.extenderBound, r.2.isSome)) =
      some (true, false) := by
    decide +kernel
  obtain ⟨⟨m, r⟩, hexec, heq⟩ := Option.map_eq_some_iff.mp hfails
  obtain ⟨hflag, hnone⟩ := Prod.mk.inj heq
  rw [Option.isSome_eq_false_iff, Option.isNone_iff_eq_none] at hnone
  dsimp only at hnone hflag
  subst hnone
  refine ⟨_, plainSession_started, .cons ⟨m, none, hexec, rfl⟩ (.nil _), rfl, fun hall => ?_⟩
  exact Bool.false_ne_true ((hall 0 0).mp ((int2f_1687_absent tableEngine 0 0 m).mpr hflag))

end Dosiz.Extender
