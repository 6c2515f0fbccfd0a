/-
  Dosiz/PicIrqs.lean
  ==================
  **Hardware interrupts between two threads** (`hw_irq_pending`, the mask registers and
  `take_pending_irq_vector` of `hardware.cc`).

  The sound card raises interrupts from the audio thread while the processor's thread takes them:
  it loads the word of pending interrupts, looks for the first one that is not masked and clears its
  bit in a second access.  Whatever the audio thread does in between, no interrupt is lost and
  none is made up (`irqs_delivered`).
-/
import Mathlib.Data.List.Induction
import Dosiz.Transition

namespace Dosiz.PicIrqs

open Transition

/-! ### The controller -/

/-- The mask registers, `hw_irq_pending`, and the word that `take_pending_irq_vector` has loaded and
    not come back to. -/
structure Pic where
  imrMaster : BitVec 8
  imrSlave : BitVec 8
  pending : BitVec 32
  loaded : Option (BitVec 32)
deriving DecidableEq

/-- `init` -/
def Pic.init : Pic := ⟨0xFF, 0xFF, 0, none⟩

/-- `irq_masked`: the slave's interrupts are masked with the cascade as well. -/
def irqMasked (master slave : BitVec 8) (irq : Nat) : Bool :=
  if irq < 8 then master.getLsbD irq else slave.getLsbD (irq - 8) || master.getLsbD 2

/-- `irq_vector` -/
def irqVector (irq : Nat) : Nat := if irq < 8 then 0x08 + irq else 0x70 + (irq - 8)

def bit (irq : Nat) : BitVec 32 := 1#32 <<< irq

/-- The loop of `take_pending_irq_vector` over the word it has loaded. -/
def firstIrq (master slave : BitVec 8) (word : BitVec 32) : Option Nat :=
  (List.range 16).find? fun irq => word.getLsbD irq && !irqMasked master slave irq

/-- What the two threads do: `raise` is the audio thread's, the rest the processor's.  `take` comes with
    the vector, or with `none` for -1. -/
inductive PicEvent where
  | raise (irq : Nat)
  | imr (slave : Bool) (val : BitVec 8)
  | load
  | take (vector : Option Nat)
deriving DecidableEq

def picStep (p : Pic) (e : PicEvent) (q : Pic) : Prop :=
  match e with
  | .raise irq => q = { p with pending := p.pending ||| bit (irq % 16) }
  | .imr slave val => p.loaded = none ∧
      q = if slave then { p with imrSlave := val } else { p with imrMaster := val }
  | .load => p.loaded = none ∧ q = { p with loaded := some p.pending }
  | .take vector => ∃ word, p.loaded = some word ∧
      vector = (firstIrq p.imrMaster p.imrSlave word).map irqVector ∧
      q = { p with
        pending := (firstIrq p.imrMaster p.imrSlave word).elim p.pending fun irq => p.pending &&& ~~~bit irq
        loaded := none }

/-! ### What has happened -/

/-- Whether interrupt `i` waits after one more event. -/
def awaitStep (i : Nat) (b : Bool) : PicEvent → Bool
  | .raise irq => b || irq % 16 == i
  | .take vector => b && vector != some (irqVector i)
  | _ => b

/-- Interrupt `i` has been raised since it was delivered last. -/
def awaits (i : Nat) (es : List PicEvent) : Bool := es.foldl (awaitStep i) false

def imrStep (r : BitVec 8 × BitVec 8) : PicEvent → BitVec 8 × BitVec 8
  | .imr slave val => if slave then (r.1, val) else (val, r.2)
  | _ => r

/-- The mask registers after the events. -/
def imrAfter (es : List PicEvent) : BitVec 8 × BitVec 8 := es.foldl imrStep (0xFF, 0xFF)

/-- The interrupt is masked after the events. -/
def maskedAfter (es : List PicEvent) (irq : Nat) : Bool := irqMasked (imrAfter es).1 (imrAfter es).2 irq

theorem awaits_concat (i : Nat) (es : List PicEvent) (e : PicEvent) :
    awaits i (es ++ [e]) = awaitStep i (awaits i es) e := List.foldl_append

theorem imrAfter_concat (es : List PicEvent) (e : PicEvent) : imrAfter (es ++ [e]) = imrStep (imrAfter es) e :=
  List.foldl_append

/-- The audio thread alone only adds to what waits. -/
theorem awaits_raises {i : Nat} {es mid : List PicEvent} (hmid : ∀ e ∈ mid, ∃ irq, e = .raise irq)
    (h : awaits i es = true) : awaits i (es ++ .load :: mid) = true := by
  induction mid using List.reverseRecOn with
  | nil =>
    rw [awaits_concat]
    exact h
  | append_singleton mid e ih =>
    obtain ⟨irq, rfl⟩ := hmid e (by simp)
    rw [show es ++ PicEvent.load :: (mid ++ [.raise irq]) = (es ++ .load :: mid) ++ [.raise irq] by simp,
      awaits_concat, ih fun e he => hmid e (by simp [he])]
    rfl

/-! ### The invariant -/

theorem getLsbD_bit {irq i : Nat} (hi : i < 16) : (bit irq).getLsbD i = decide (i = irq) := by
  rw [bit, BitVec.getLsbD_shiftLeft, BitVec.getLsbD_one]
  by_cases h : i < irq
  · simp [h, h.ne]
  · simp [h, show i < 32 by omega, show i - irq = 0 ↔ i = irq by omega]

theorem irqVector_inj {i j : Nat} (hi : i < 16) (hj : j < 16) (h : irqVector i = irqVector j) : i = j := by
  unfold irqVector at h
  split_ifs at h <;> omega

/-- `word` was loaded after `es₀`, and since then only the audio thread has run. -/
structure LoadedAt (es : List PicEvent) (word : BitVec 32) (es₀ mid : List PicEvent) : Prop where
  events : es = es₀ ++ .load :: mid
  raises : ∀ e ∈ mid, ∃ irq, e = .raise irq
  word : ∀ i < 16, word.getLsbD i = awaits i es₀

/-- The controller after the events. -/
structure Reached (es : List PicEvent) (p : Pic) : Prop where
  pending : ∀ i < 16, p.pending.getLsbD i = awaits i es
  imr : (p.imrMaster, p.imrSlave) = imrAfter es
  loaded : ∀ word, p.loaded = some word → ∃ es₀ mid, LoadedAt es word es₀ mid

section Steps

variable {es : List PicEvent} {p q : Pic}

theorem firstIrq_some {master slave : BitVec 8} {word : BitVec 32} {irq : Nat}
    (h : firstIrq master slave word = some irq) : irq < 16 ∧ word.getLsbD irq = true ∧
      irqMasked master slave irq = false ∧
      ∀ j < irq, word.getLsbD j = true → irqMasked master slave j = true := by
  obtain ⟨hfound, hrange, hfirst⟩ := List.find?_range_eq_some.mp h
  simp only [Bool.and_eq_true, Bool.not_eq_true'] at hfound
  refine ⟨List.mem_range.mp hrange, hfound.1, hfound.2, fun j hj hword => ?_⟩
  have hskip := hfirst j hj
  rw [hword, Bool.true_and, Bool.not_not] at hskip
  exact hskip

theorem reached_step {e : PicEvent} (h : Reached es p) (hs : picStep p e q) : Reached (es ++ [e]) q := by
  cases e with
  | raise irq =>
    obtain rfl := hs
    refine ⟨fun i hi => ?_, ?_, fun word hword => ?_⟩
    · rw [awaits_concat, BitVec.getLsbD_or, h.pending i hi, getLsbD_bit hi, awaitStep]
      rw [Bool.beq_eq_decide_eq, decide_eq_decide.mpr eq_comm]
    · rw [imrAfter_concat]
      exact h.imr
    · obtain ⟨es₀, mid, hl⟩ := h.loaded word hword
      refine ⟨es₀, mid ++ [.raise irq], ?_, fun e he => ?_, hl.word⟩
      · rw [hl.events]
        simp
      · rcases List.mem_append.mp he with he | he
        · exact hl.raises e he
        · exact ⟨irq, List.mem_singleton.mp he⟩
  | imr slave val =>
    obtain ⟨hidle, rfl⟩ := hs
    refine ⟨fun i hi => ?_, ?_, fun word hword => ?_⟩
    · rw [awaits_concat]
      cases slave <;> exact h.pending i hi
    · rw [imrAfter_concat, ← h.imr]
      cases slave <;> rfl
    · have hnone : p.loaded = some word := by
        cases slave <;> exact hword
      exact absurd (hidle.symm.trans hnone) (by simp)
  | load =>
    obtain ⟨-, rfl⟩ := hs
    refine ⟨fun i hi => ?_, ?_, fun word hword => ?_⟩
    · rw [awaits_concat]
      exact h.pending i hi
    · rw [imrAfter_concat]
      exact h.imr
    · cases hword
      exact ⟨es, [], rfl, fun _ he => absurd he (List.not_mem_nil), h.pending⟩
  | take vector =>
    obtain ⟨word, hword, hvector, rfl⟩ := hs
    refine ⟨fun i hi => ?_, ?_, fun _ hword => by cases hword⟩
    · rw [awaits_concat, awaitStep, ← h.pending i hi, hvector]
      cases hfirst : firstIrq p.imrMaster p.imrSlave word with
      | none => simp
      | some irq =>
        obtain ⟨hirq, -⟩ := firstIrq_some hfirst
        simp only [Option.elim_some, Option.map_some, BitVec.getLsbD_and, BitVec.getLsbD_not, getLsbD_bit hi]
        congr 1
        by_cases heq : i = irq
        · simp [heq]
        · have hvec : irqVector irq ≠ irqVector i := fun h => heq (irqVector_inj hi hirq h.symm)
          simp [heq, hvec, show i < 32 by omega]
    · rw [imrAfter_concat]
      exact h.imr

theorem reached_init : Reached [] Pic.init :=
  ⟨fun i _ => by simp [Pic.init, awaits], rfl, fun _ h => by cases h⟩

theorem reached_run (h : Run picStep Pic.init es p) : Reached es p := by
  induction es using List.reverseRecOn generalizing p with
  | nil =>
    cases h
    exact reached_init
  | append_singleton es e ih =>
    obtain ⟨u, hu, he⟩ := h.split
    cases he with
    | cons he rest =>
      cases rest
      exact reached_step (ih hu) he

end Steps

/-! ### Nothing lost, nothing made up -/

/-- The word was loaded after `es₀`; since then only the audio thread has run. -/
def Since (es₀ es : List PicEvent) : Prop := ∃ mid, es = es₀ ++ .load :: mid ∧ ∀ e ∈ mid, ∃ r, e = .raise r

/-- The right answer after `es`: the vector of an interrupt that waits and is not masked, where every interrupt
    before it that waited at the load is masked; -1 where all that waited at the load are. -/
def Right (es : List PicEvent) : Option Nat → Prop
  | some vector => ∃ irq < 16, vector = irqVector irq ∧ awaits irq es = true ∧ maskedAfter es irq = false ∧
      ∃ es₀, Since es₀ es ∧ ∀ j < irq, awaits j es₀ = true → maskedAfter es j = true
  | none => ∃ es₀, Since es₀ es ∧ ∀ j < 16, awaits j es₀ = true → maskedAfter es j = true

/-- **The two threads.**  In every run, whatever their order: an interrupt is pending exactly if it
    has been raised since it was delivered last, and every answer is right. -/
theorem irqs_delivered {es : List PicEvent} {p : Pic} (h : Run picStep Pic.init es p) :
    (∀ i < 16, p.pending.getLsbD i = awaits i es) ∧
      ∀ es₁ answer es₂, es = es₁ ++ .take answer :: es₂ → Right es₁ answer := by
  refine ⟨(reached_run h).pending, ?_⟩
  rintro es₁ answer es₂ rfl
  obtain ⟨u, hu, hrest⟩ := h.split
  have hreached := reached_run hu
  have hmask : ∀ j, irqMasked u.imrMaster u.imrSlave j = maskedAfter es₁ j := by
    intro j
    rw [maskedAfter, ← hreached.imr]
  cases hrest with
  | cons hstep _ =>
    obtain ⟨word, hword, rfl, -⟩ := hstep
    obtain ⟨es₀, mid, hloaded⟩ := hreached.loaded word hword
    have hsince : Since es₀ es₁ := ⟨mid, hloaded.events, hloaded.raises⟩
    cases hfirst : firstIrq u.imrMaster u.imrSlave word with
    | none =>
      refine ⟨es₀, hsince, fun j hj hwaits => (hmask j).symm.trans ?_⟩
      have hskip := List.find?_range_eq_none.mp hfirst j hj
      rw [(hloaded.word j hj).trans hwaits, Bool.true_and, Bool.not_not] at hskip
      exact hskip
    | some irq =>
      obtain ⟨hirq, hset, hclear, hbefore⟩ := firstIrq_some hfirst
      refine ⟨irq, hirq, rfl, ?_, (hmask irq).symm.trans hclear, es₀, hsince,
        fun j hj hwaits => (hmask j).symm.trans (hbefore j hj ?_)⟩
      · rw [hloaded.events]
        exact awaits_raises hloaded.raises ((hloaded.word irq hirq).symm.trans hset)
      · exact (hloaded.word j (hj.trans hirq)).trans hwaits

/-- Interrupt 3 comes between the two accesses that deliver interrupt 5. -/
theorem irqs_delivered_between :
    Run picStep Pic.init [.imr false 0, .raise 5, .load, .raise 3, .take (some 0x0D)] ⟨0, 0xFF, 8, none⟩ ∧
      Right [.imr false 0, .raise 5, .load, .raise 3] (some 0x0D) := by
  have hraised : picStep ⟨0, 0xFF, 0, none⟩ (.raise 5) ⟨0, 0xFF, 32, none⟩ := by
    simp only [picStep]
    decide +kernel
  have hbetween : picStep ⟨0, 0xFF, 32, some 32⟩ (.raise 3) ⟨0, 0xFF, 40, some 32⟩ := by
    simp only [picStep]
    decide +kernel
  have htaken : picStep ⟨0, 0xFF, 40, some 32⟩ (.take (some 0x0D)) ⟨0, 0xFF, 8, none⟩ :=
    ⟨32, rfl, by decide +kernel, by decide +kernel⟩
  have hrun : Run picStep Pic.init [.imr false 0, .raise 5, .load, .raise 3, .take (some 0x0D)] ⟨0, 0xFF, 8, none⟩ :=
    .cons (t := ⟨0, 0xFF, 0, none⟩) ⟨rfl, rfl⟩ (.cons hraised (.cons ⟨rfl, rfl⟩ (.cons hbetween (.single htaken))))
  exact ⟨hrun, (irqs_delivered hrun).2 _ _ [] rfl⟩

end Dosiz.PicIrqs
