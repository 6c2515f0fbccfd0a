/-
  Dosiz/LoopStack.lean
  ====================
  **Loops that start loops.**

  The code of a loop's step either ends, and says whether its loop is to break, or starts a loop of
  its own and goes on with the state in which that one breaks.  `Eval` is this recursion.  The same
  code runs on a machine with a stack, one entry for each piece of code that waits for its loop
  (`machineStep`), and a loop leads from `s` to `t` exactly if the machine has a run from `s` to `t`
  that never takes an entry from below the loop (`loop_iff`).
-/
import Dosiz.Transition

namespace LoopStack

open Transition

/-! ### Code -/

/-- What a piece of code does: it ends in `s`, or it starts a loop in `s` and `k` waits for it. -/
inductive Act (σ κ : Type*) where
  | done (s : σ) (stop : Bool)
  | nest (s : σ) (k : κ)

/-- A language of steps `ε`, the code that waits and the test at the head of every loop. -/
structure Code (σ κ ε : Type*) where
  ended : σ → Prop
  act : σ → ε → Act σ κ → Prop
  resume : κ → σ → Act σ κ

inductive Task (σ κ : Type*) where
  | loop (s : σ)
  | code (a : Act σ κ)

variable {σ κ ε : Type*}

/-- The task ends in a state, code with its answer; a loop's answer is always `true`. -/
inductive Eval (C : Code σ κ ε) : Task σ κ → σ → Bool → Prop where
  | ended {s : σ} (h : C.ended s) : Eval C (.loop s) s true
  | stop {s t : σ} {e : ε} {a : Act σ κ} (h : ¬ C.ended s) (ha : C.act s e a)
      (hc : Eval C (.code a) t true) : Eval C (.loop s) t true
  | next {s t u : σ} {e : ε} {a : Act σ κ} (h : ¬ C.ended s) (ha : C.act s e a)
      (hc : Eval C (.code a) t false) (hl : Eval C (.loop t) u true) : Eval C (.loop s) u true
  | done (s : σ) (b : Bool) : Eval C (.code (.done s b)) s b
  | nest {s t u : σ} {k : κ} {b : Bool} (hl : Eval C (.loop s) t true)
      (hc : Eval C (.code (C.resume k t)) u b) : Eval C (.code (.nest s k)) u b

/-- A loop that is at its head in `s` breaks in `t`. -/
def Loop (C : Code σ κ ε) (s t : σ) : Prop := Eval C (.loop s) t true

/-! ### The machine with a stack -/

structure State (σ κ : Type*) where
  s : σ
  stack : List κ
  stop : Bool

inductive MachineEvent (ε : Type*) where
  | step (e : ε)
  | unwind

/-- The machine behind a piece of code on the stack `ks`. -/
def put (ks : List κ) : Act σ κ → State σ κ
  | .done s b => ⟨s, ks, b⟩
  | .nest s k => ⟨s, k :: ks, false⟩

/-- The innermost loop is about to break. -/
def State.breaks (C : Code σ κ ε) (x : State σ κ) : Prop := x.stop = true ∨ C.ended x.s

def machineStep (C : Code σ κ ε) (x : State σ κ) (e : MachineEvent ε) (y : State σ κ) : Prop :=
  match e with
  | .step e => x.stop = false ∧ ¬ C.ended x.s ∧ ∃ a, C.act x.s e a ∧ y = put x.stack a
  | .unwind => ∃ k ks, x.breaks C ∧ x.stack = k :: ks ∧ y = put ks (C.resume k x.s)

/-- The step takes no entry of `ks`. -/
def Above (ks : List κ) (x : State σ κ) (e : MachineEvent ε) : Prop :=
  ks <:+ x.stack ∧ (e = .unwind → x.stack ≠ ks)

variable {C : Code σ κ ε} {ks : List κ}

theorem Above.of_cons {k : κ} {x : State σ κ} {e : MachineEvent ε} (h : Above (k :: ks) x e) : Above ks x e := by
  refine ⟨(List.suffix_cons k ks).trans h.1, fun _ heq => ?_⟩
  have hlen := h.1.length_le
  rw [heq, List.length_cons] at hlen
  exact absurd hlen (Nat.not_succ_le_self _)

theorem guarded_weaken {G G' : State σ κ → MachineEvent ε → Prop} (hG : ∀ x e, G x e → G' x e)
    {x y : State σ κ} {es : List (MachineEvent ε)} (h : Guarded (machineStep C) G x es y) :
    Guarded (machineStep C) G' x es y := by
  induction h with
  | nil x => exact .nil x
  | cons hg he _ ih => exact .cons (hG _ _ hg) he ih

/-- The machine at a task, above the stack `ks`. -/
def Task.above (ks : List κ) : Task σ κ → State σ κ
  | .loop s => ⟨s, ks, false⟩
  | .code a => put ks a

/-- The machine where the task has ended: with the code's answer, or about to break. -/
def Task.Ends (C : Code σ κ ε) (t : σ) (b stop : Bool) : Task σ κ → Prop
  | .loop _ => stop = true ∨ C.ended t
  | .code _ => stop = b

/-- Every evaluation is a run of the machine, on every stack. -/
theorem Eval.machine {task : Task σ κ} {t : σ} {b : Bool} (h : Eval C task t b) : ∀ ks : List κ,
    ∃ es stop, task.Ends C t b stop ∧ Guarded (machineStep C) (Above ks) (task.above ks) es ⟨t, ks, stop⟩ := by
  have hstep : ∀ (s : σ) (e : ε) (a : Act σ κ) (ks : List κ) (es : List (MachineEvent ε)) (y : State σ κ),
      ¬ C.ended s → C.act s e a → Guarded (machineStep C) (Above ks) (put ks a) es y →
        Guarded (machineStep C) (Above ks) ⟨s, ks, false⟩ (.step e :: es) y :=
    fun s e a ks es y hover ha hrun => .cons ⟨List.suffix_refl ks, fun h => by cases h⟩ ⟨rfl, hover, a, ha, rfl⟩ hrun
  induction h with
  | ended h => exact fun ks => ⟨[], false, Or.inr h, .nil _⟩
  | stop hover ha _ ih =>
    intro ks
    obtain ⟨es, stop, rfl, hrun⟩ := ih ks
    exact ⟨_, true, Or.inl rfl, hstep _ _ _ _ _ _ hover ha hrun⟩
  | next hover ha _ _ ih ihl =>
    intro ks
    obtain ⟨es, stop, rfl, hrun⟩ := ih ks
    obtain ⟨fs, stop, hends, hloop⟩ := ihl ks
    exact ⟨_, stop, hends, hstep _ _ _ _ _ _ hover ha (hrun.append hloop)⟩
  | done s b => exact fun ks => ⟨[], b, rfl, .nil _⟩
  | @nest s t u k b _ _ ihl ih =>
    intro ks
    obtain ⟨es, stop, hends, hloop⟩ := ihl (k :: ks)
    obtain ⟨fs, stop', rfl, hrun⟩ := ih ks
    have hpop : Guarded (machineStep C) (Above ks) ⟨t, k :: ks, stop⟩ (.unwind :: fs) ⟨u, ks, stop'⟩ :=
      .cons ⟨List.suffix_cons k ks, fun _ => List.cons_ne_self k ks⟩ ⟨k, ks, hends, rfl, rfl⟩ hrun
    exact ⟨_, stop', rfl, (guarded_weaken (fun _ _ => Above.of_cons) hloop).append hpop⟩

/-- The loops of `inner` break one after the other, and the loop below them in `u`. -/
def Rest (C : Code σ κ ε) (u : σ) : List κ → σ → Bool → Prop
  | [], s, true => s = u
  | [], s, false => Loop C s u
  | k :: inner, s, true => ∃ t b, Eval C (.code (C.resume k s)) t b ∧ Rest C u inner t b
  | k :: inner, s, false => ∃ t, Loop C s t ∧ ∃ v b, Eval C (.code (C.resume k t)) v b ∧ Rest C u inner v b

section Back

variable {u : σ} {inner : List κ}

/-- What a loop that breaks in `t` leaves to do is what is left to do at its head. -/
theorem rest_of_loop {s t : σ} (h : Loop C s t) (hr : Rest C u inner t true) : Rest C u inner s false := by
  cases inner with
  | nil =>
    cases hr
    exact h
  | cons k inner => exact ⟨t, h, hr⟩

theorem rest_next {s t : σ} (hl : ∀ v, Loop C t v → Loop C s v) (hr : Rest C u inner t false) :
    Rest C u inner s false := by
  cases inner with
  | nil => exact hl u hr
  | cons k inner =>
    obtain ⟨v, hv, hrest⟩ := hr
    exact ⟨v, hl v hv, hrest⟩

/-- Behind a piece of code the code has ended first. -/
theorem rest_put {a : Act σ κ} (hr : Rest C u ((put inner a).stack) (put inner a).s (put inner a).stop) :
    ∃ t b, Eval C (.code a) t b ∧ Rest C u inner t b := by
  cases a with
  | done s b => exact ⟨s, b, .done s b, hr⟩
  | nest s k =>
    obtain ⟨t, hloop, v, b, hcode, hrest⟩ := hr
    exact ⟨v, b, .nest hloop hcode, hrest⟩

theorem put_append (a : Act σ κ) :
    put (inner ++ ks) a = ⟨(put inner a).s, (put inner a).stack ++ ks, (put inner a).stop⟩ := by
  cases a <;> rfl

/-- A run of the machine that keeps above `ks` works off the entries above it. -/
theorem machine_rest {x y : State σ κ} {es : List (MachineEvent ε)}
    (h : Guarded (machineStep C) (Above ks) x es y) (hstack : y.stack = ks) (hy : y.breaks C) :
    ∀ inner, x.stack = inner ++ ks → Rest C y.s inner x.s x.stop := by
  induction h with
  | nil x =>
    intro inner hx
    obtain rfl : inner = [] := by simpa using hx.symm.trans hstack
    cases hstop : x.stop with
    | true => rfl
    | false => exact .ended (hy.resolve_left (by simp [hstop]))
  | @cons x z y e es hg he _ ih =>
    intro inner hx
    cases e with
    | step e =>
      obtain ⟨hstop, hover, a, ha, rfl⟩ := he
      rw [hx, put_append] at ih
      obtain ⟨t, b, hcode, hrest⟩ := rest_put (ih hstack hy _ rfl)
      rw [hstop]
      cases b with
      | true => exact rest_of_loop (.stop hover ha hcode) hrest
      | false => exact rest_next (fun v hv => .next hover ha hcode hv) hrest
    | unwind =>
      obtain ⟨k, rest, hbreaks, hk, rfl⟩ := he
      cases inner with
      | nil => exact absurd hx (hg.2 rfl)
      | cons k' inner =>
        rw [List.cons_append] at hx
        obtain ⟨rfl, rfl⟩ := List.cons.inj (hk.symm.trans hx)
        rw [put_append] at ih
        have hrest : Rest C y.s (k :: inner) x.s true := rest_put (ih hstack hy _ rfl)
        cases hstop : x.stop with
        | true => exact hrest
        | false => exact rest_of_loop (.ended (hbreaks.resolve_left (by simp [hstop]))) hrest

end Back

/-- **The recursion and the stack agree.** -/
theorem loop_iff (ks : List κ) (s t : σ) : Loop C s t ↔ ∃ es stop, State.breaks C ⟨t, ks, stop⟩ ∧
    Guarded (machineStep C) (Above ks) ⟨s, ks, false⟩ es ⟨t, ks, stop⟩ := by
  constructor
  · intro h
    obtain ⟨es, stop, hends, hrun⟩ := h.machine ks
    exact ⟨es, stop, hends, hrun⟩
  · rintro ⟨es, stop, hbreaks, hrun⟩
    exact machine_rest hrun rfl hbreaks [] rfl

end LoopStack
