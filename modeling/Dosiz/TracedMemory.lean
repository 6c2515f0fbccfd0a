/-
  Dosiz/TracedMemory.lean
  =======================
  **A byte memory with the addresses of its stores.**

  A store of the byte that is there already does not show in the memory, so a statement about where a program writes
  is about the trace.  `Writes S t t'` says of a piece of a program that all its stores are in `S`; it composes, and it
  gives `AgreesOff S` for the memories.
-/
import Dosiz.ByteMemory

namespace TracedMemory

open ByteMemory

/-- `written` has the oldest address first. -/
structure Traced where
  mem : Mem
  written : List Nat

namespace Traced

def start (m : Mem) : Traced := ⟨m, []⟩

def writeb (t : Traced) (a v : Nat) : Traced := ⟨ByteMemory.writeb t.mem a v, t.written ++ [a]⟩

def writew (t : Traced) (a v : Nat) : Traced := ⟨ByteMemory.writew t.mem a v, t.written ++ [a, a + 1]⟩

@[simp] theorem writew_mem (t : Traced) (a v : Nat) : (t.writew a v).mem = ByteMemory.writew t.mem a v := rfl

@[simp] theorem writew_written (t : Traced) (a v : Nat) : (t.writew a v).written = t.written ++ [a, a + 1] := rfl

end Traced

/-- `t'` comes from `t` by stores to addresses of `S`. -/
structure Writes (S : Set Nat) (t t' : Traced) : Prop where
  trace : ∃ as : List Nat, t'.written = t.written ++ as ∧ ∀ a ∈ as, a ∈ S
  off : AgreesOff S t.mem t'.mem

namespace Writes

variable {S T : Set Nat} {t t' t'' : Traced}

theorem refl (S : Set Nat) (t : Traced) : Writes S t t where
  trace := ⟨[], (List.append_nil _).symm, fun _ ha => absurd ha List.not_mem_nil⟩
  off := AgreesOff.refl S t.mem

theorem mono (h : Writes S t t') (hST : S ⊆ T) : Writes T t t' where
  trace := by
    obtain ⟨as, htrace, has⟩ := h.trace
    exact ⟨as, htrace, fun a ha => hST (has a ha)⟩
  off := h.off.mono hST

theorem trans (h₁ : Writes S t t') (h₂ : Writes S t' t'') : Writes S t t'' where
  trace := by
    obtain ⟨as, htrace, has⟩ := h₁.trace
    obtain ⟨bs, htrace', hbs⟩ := h₂.trace
    refine ⟨as ++ bs, by rw [htrace', htrace, List.append_assoc], fun a ha => ?_⟩
    rcases List.mem_append.mp ha with ha | ha
    · exact has a ha
    · exact hbs a ha
  off := h₁.off.trans h₂.off

theorem writew (t : Traced) (v : Nat) {a : Nat} (h₀ : a ∈ S) (h₁ : a + 1 ∈ S) : Writes S t (t.writew a v) where
  trace := by
    refine ⟨[a, a + 1], rfl, fun x hx => ?_⟩
    rcases List.mem_cons.mp hx with rfl | hx
    · exact h₀
    · rwa [List.mem_singleton.mp hx]
  off := by
    refine (writew_off t.mem a v).mono fun x hx => ?_
    rcases Nat.lt_or_ge a x with hlt | hge
    · have hx₁ : x = a + 1 := Nat.le_antisymm (Nat.le_of_lt_succ hx.2) hlt
      rwa [hx₁]
    · have hx₀ : x = a := Nat.le_antisymm hge hx.1
      rwa [hx₀]

/-- A trace within `S` stays within `S`. -/
theorem written (h : Writes S t t') (ht : ∀ a ∈ t.written, a ∈ S) : ∀ a ∈ t'.written, a ∈ S := by
  obtain ⟨as, htrace, has⟩ := h.trace
  intro a ha
  rw [htrace] at ha
  rcases List.mem_append.mp ha with ha | ha
  · exact ht a ha
  · exact has a ha

end Writes

end TracedMemory
