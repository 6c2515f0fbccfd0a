/-
  Dosiz/Transition.lean
  =====================
  **Runs of a labelled transition system.**

  A program that is called again and again by an environment is a relation
  `step : σ → ε → σ → Prop`: from a state, on an event, to a state.  A `Run` is a
  finite sequence of steps with the events it took, newest last.  Four facts are
  used over and over about such a system and are proved here once:

    * `Run.append` / `Run.split` — runs compose and come apart at any event;
    * `Run.invariant` — a property every step keeps is kept by every run;
    * `Guarded.invariant` — the same for a property that is kept only by the steps
      whose event is allowed in the state it is taken from;
    * `Throughout.of_invariant` — an invariant gives a property of every state on the way.
-/
import Mathlib.Data.Set.Basic
import Mathlib.Order.Basic

namespace Transition

variable {σ ε : Type*}

/-- A finite run: the events it took, in order, and the states it ran between. -/
inductive Run (step : σ → ε → σ → Prop) : σ → List ε → σ → Prop where
  | nil (s : σ) : Run step s [] s
  | cons {s t u : σ} {e : ε} {es : List ε}
      (h : step s e t) (rest : Run step t es u) : Run step s (e :: es) u

namespace Run

variable {step : σ → ε → σ → Prop} {s t u : σ} {es fs : List ε}

theorem single {e : ε} (h : step s e t) : Run step s [e] t :=
  .cons h (.nil t)

theorem append (h₁ : Run step s es t) (h₂ : Run step t fs u) : Run step s (es ++ fs) u := by
  induction h₁ with
  | nil s => simpa using h₂
  | cons h _ ih => exact .cons h (ih h₂)

/-- A run over `es ++ fs` passes through a state where `es` is done and `fs` is not begun. -/
theorem split (h : Run step s (es ++ fs) u) : ∃ t, Run step s es t ∧ Run step t fs u := by
  induction es generalizing s with
  | nil => exact ⟨s, .nil s, h⟩
  | cons e es ih =>
    cases h with
    | cons he rest =>
      obtain ⟨t, h₁, h₂⟩ := ih rest
      exact ⟨t, .cons he h₁, h₂⟩

/-- A property kept by every step is kept by every run. -/
theorem invariant {P : σ → Prop} (hstep : ∀ s e t, P s → step s e t → P t)
    (h : Run step s es t) (hs : P s) : P t := by
  induction h with
  | nil s => exact hs
  | cons he _ ih => exact ih (hstep _ _ _ hs he)

/-- A relation between states that is reflexive, transitive and holds across every step
    of a state satisfying `P` relates the two ends of every run. -/
theorem relates {P : σ → Prop} {R : σ → σ → Prop} (hrefl : ∀ s, R s s)
    (htrans : ∀ s t u, R s t → R t u → R s u) (hP : ∀ s e t, P s → step s e t → P t)
    (hR : ∀ s e t, P s → step s e t → R s t) (h : Run step s es t) (hs : P s) : R s t := by
  induction h with
  | nil s => exact hrefl s
  | cons he _ ih => exact htrans _ _ _ (hR _ _ _ hs he) (ih (hP _ _ _ hs he))

end Run

/-- Every event of the run is allowed by `G` in the state it is taken from. -/
inductive Guarded (step : σ → ε → σ → Prop) (G : σ → ε → Prop) : σ → List ε → σ → Prop where
  | nil (s : σ) : Guarded step G s [] s
  | cons {s t u : σ} {e : ε} {es : List ε} (hg : G s e)
      (h : step s e t) (rest : Guarded step G t es u) : Guarded step G s (e :: es) u

namespace Guarded

variable {step : σ → ε → σ → Prop} {G : σ → ε → Prop} {s t u : σ} {es fs : List ε}

theorem run (h : Guarded step G s es t) : Run step s es t := by
  induction h with
  | nil s => exact .nil s
  | cons _ he _ ih => exact .cons he ih

theorem append (h₁ : Guarded step G s es t) (h₂ : Guarded step G t fs u) :
    Guarded step G s (es ++ fs) u := by
  induction h₁ with
  | nil s => simpa using h₂
  | cons hg he _ ih => exact .cons hg he (ih h₂)

/-- A property kept by every allowed step is kept by every guarded run. -/
theorem invariant {P : σ → Prop} (hstep : ∀ s e t, P s → G s e → step s e t → P t)
    (h : Guarded step G s es t) (hs : P s) : P t := by
  induction h with
  | nil s => exact hs
  | cons hg he _ ih => exact ih (hstep _ _ _ hs hg he)

end Guarded

/-- A guarded run in every state of which `P` holds. -/
def Throughout (step : σ → ε → σ → Prop) (G : σ → ε → Prop) (P : σ → Prop) (s : σ) (es : List ε) (t : σ) :
    Prop :=
  Guarded step (fun s e => G s e ∧ P s) s es t ∧ P t

namespace Throughout

variable {step : σ → ε → σ → Prop} {G : σ → ε → Prop} {P : σ → Prop} {s t u : σ} {e : ε} {es : List ε}

theorem nil (hs : P s) : Throughout step G P s [] s := ⟨.nil s, hs⟩

theorem cons (hg : G s e) (hs : P s) (h : step s e u) (rest : Throughout step G P u es t) :
    Throughout step G P s (e :: es) t :=
  ⟨.cons ⟨hg, hs⟩ h rest.1, rest.2⟩

theorem first (h : Throughout step G P s es t) : P s := by
  obtain ⟨hrun, hlast⟩ := h
  cases hrun with
  | nil => exact hlast
  | cons hg _ _ => exact hg.2

/-- An invariant of the allowed steps that implies `P` gives it throughout. -/
theorem of_invariant {I : σ → Prop} (hP : ∀ s, I s → P s)
    (hstep : ∀ s e t, I s → G s e → step s e t → I t) (h : Guarded step G s es t) :
    I s → Throughout step G P s es t := by
  induction h with
  | nil s => exact fun hs => .nil (hP s hs)
  | cons hg he _ ih => exact fun hs => .cons hg (hP _ hs) he (ih (hstep _ _ _ hs hg he))

end Throughout

end Transition
