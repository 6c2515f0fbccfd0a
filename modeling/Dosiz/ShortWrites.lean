/-
  Dosiz/ShortWrites.lean
  ======================
  **What AH=40 reports of a short write** (INT 21h AH=40 of `bridge.cc`).

  In text mode the CRs are dropped, then the host is handed the rest and may take only a part of it.  AH=40 reports
  the whole count whatever part that was.  So its count is the longest prefix that has been written exactly if the
  host took everything, and a program that goes on behind a short count never does (`shortWrites_right_iff`).
-/
import Mathlib.Order.Bounds.Basic
import Dosiz.TextRead

namespace Dosiz.ShortWrites

open ByteMemory Machine FileHandles TextRead

/-! ### What is handed to the host -/

/-- The bytes of the guest, from DS:DX on. -/
def guestBytes (m : Machine) : List Nat :=
  (List.range (readCount m)).map fun i => readb m.mem (lin (dosArgAddr m .ds .edx + i))

/-- Text mode drops every CR. -/
def translate (text : Bool) (bs : List Nat) : List Nat := if text then bs.filter (· ≠ 0x0D) else bs

/-- The mode of the handle BX; standard output and error have none. -/
def textOf (textMode : Nat → Bool) (m : Machine) : Bool := if m.bx = 1 ∨ m.bx = 2 then false else textMode m.bx

/-- What AH=40 hands to the host's `write`. -/
def handed (textMode : Nat → Bool) (m : Machine) : List Nat := translate (textOf textMode m) (guestBytes m)

/-! ### A program that goes on behind a short count -/

/-- DS:DX behind the first `n` bytes, and the count without them. -/
def advance (m : Machine) (n : Nat) : Machine :=
  if pm32 m then (m.setR32 .edx (m.r32 .edx + n)).setR32 .ecx (m.r32 .ecx - n)
  else (m.setR16 .edx (m.dx + n)).setR16 .ecx (m.cx - n)

/-- The calls of the program, with what the host's `write` answers to each. -/
def loopCalls (m : Machine) : List (Option Nat) → List (Machine × Option Nat)
  | [] => []
  | r :: rs =>
    let q := int21_40 m r
    (m, r) :: if q.2 = false ∧ countOf q.1 < readCount m then loopCalls (advance m (countOf q.1)) rs else []

/-- What the host has been given by the time that the program takes its whole buffer for written. -/
def loopWritten (textMode : Nat → Bool) (m : Machine) : List (Option Nat) → Option (List Nat)
  | [] => none
  | r :: rs =>
    let q := int21_40 m r
    let written := (handed textMode m).take (r.getD 0)
    if q.2 then none
    else if countOf q.1 < readCount m then
      (loopWritten textMode (advance m (countOf q.1)) rs).map (written ++ ·)
    else some written

/-! ### What a count is to be -/

/-- Without CF the count is the length of the longest prefix whose bytes, translated, the host has taken. -/
def CountRight (textMode : Nat → Bool) (m : Machine) (r : Option Nat) : Prop :=
  (int21_40 m r).2 = false → ∀ k, r = some k →
    IsGreatest { n | n ≤ readCount m ∧ (translate (textOf textMode m) ((guestBytes m).take n)).length ≤ k }
      (countOf (int21_40 m r).1)

/-- Every call's count is right, and what the program takes for written is all it had, once. -/
structure WritesRight (textMode : Nat → Bool) (m : Machine) (rs : List (Option Nat)) : Prop where
  counts : ∀ c ∈ loopCalls m rs, CountRight textMode c.1 c.2
  once : ∀ written, loopWritten textMode m rs = some written → written = handed textMode m

section Counts

variable {textMode : Nat → Bool} {m : Machine} {r : Option Nat} {rs : List (Option Nat)}

theorem guestBytes_length (m : Machine) : (guestBytes m).length = readCount m := by
  rw [guestBytes, List.length_map, List.length_range]

/-- AH=40 fails without a descriptor and where `write` fails; else it reports the whole count. -/
theorem int21_40_count (m : Machine) (r : Option Nat) :
    (int21_40 m r).2 = !((writeFd m).isSome && r.isSome) ∧
      ((int21_40 m r).2 = false → countOf (int21_40 m r).1 = readCount m) := by
  unfold int21_40
  cases writeFd m with
  | none => exact ⟨rfl, fun h => by cases h⟩
  | some fd =>
    cases r with
    | none => exact ⟨rfl, fun h => by cases h⟩
    | some k => exact ⟨rfl, fun _ => countOf_setCount (Nat.le_refl _)⟩

/-- The program never goes on: there is one call. -/
theorem loopCalls_one (m : Machine) (r : Option Nat) (rs : List (Option Nat)) : loopCalls m (r :: rs) = [(m, r)] := by
  unfold loopCalls
  dsimp only
  rw [if_neg]
  rintro ⟨hcf, hlt⟩
  rw [(int21_40_count m r).2 hcf] at hlt
  exact Nat.lt_irrefl _ hlt

theorem loopWritten_one (textMode : Nat → Bool) (m : Machine) (r : Option Nat) (rs : List (Option Nat)) :
    loopWritten textMode m (r :: rs) =
      if (int21_40 m r).2 then none else some ((handed textMode m).take (r.getD 0)) := by
  unfold loopWritten
  dsimp only
  cases hcf : (int21_40 m r).2 with
  | true => rfl
  | false =>
    rw [if_neg Bool.false_ne_true, if_neg Bool.false_ne_true, if_neg]
    rw [(int21_40_count m r).2 hcf]
    exact Nat.lt_irrefl _

/-- The whole count is right exactly if the host has taken all it was handed. -/
theorem countRight_iff {k : Nat} (hcf : (int21_40 m (some k)).2 = false) (hk : k ≤ (handed textMode m).length) :
    CountRight textMode m (some k) ↔ k = (handed textMode m).length := by
  have hcount := (int21_40_count m (some k)).2 hcf
  have hall : (guestBytes m).take (readCount m) = guestBytes m :=
    List.take_of_length_le (Nat.le_of_eq (guestBytes_length m))
  unfold CountRight
  rw [hcount]
  constructor
  · intro h
    have hmem := (h hcf k rfl).1.2
    rw [hall] at hmem
    exact Nat.le_antisymm hk hmem
  · rintro rfl _ _ ⟨⟩
    refine ⟨⟨Nat.le_refl _, ?_⟩, fun n hn => hn.1⟩
    rw [hall]
    exact Nat.le_refl _

end Counts

/-- **Short writes.**  With host answers that do not exceed what was handed over, the counts of AH=40 are right, and
    a program that goes on behind short counts has written each byte once, exactly if the first `write` fails or
    takes everything. -/
theorem shortWrites_right_iff (textMode : Nat → Bool) (m : Machine) (rs : List (Option Nat))
    (hhost : ∀ c ∈ loopCalls m rs, ∀ k, c.2 = some k → k ≤ (handed textMode c.1).length) :
    WritesRight textMode m rs ↔
      ∀ k, (writeFd m).isSome → rs.head? = some (some k) → k = (handed textMode m).length := by
  cases rs with
  | nil => exact iff_of_true ⟨fun c hc => absurd hc List.not_mem_nil, fun w hw => by cases hw⟩ fun k _ hk => by cases hk
  | cons r rs =>
    rw [loopCalls_one] at hhost
    constructor
    · rintro h k hfd hk
      obtain rfl := Option.some.inj hk
      have hcf : (int21_40 m (some k)).2 = false := by rw [(int21_40_count m (some k)).1, hfd]; rfl
      have hcount := h.counts (m, some k) (by rw [loopCalls_one]; exact List.mem_singleton.mpr rfl)
      exact (countRight_iff hcf (hhost _ (List.mem_singleton.mpr rfl) k rfl)).mp hcount
    · intro h
      have hfull : ∀ k, (int21_40 m r).2 = false → r = some k → k = (handed textMode m).length := by
        rintro k hcf rfl
        refine h k ?_ rfl
        rw [(int21_40_count m (some k)).1] at hcf
        simpa using hcf
      constructor
      · intro c hc
        rw [loopCalls_one] at hc
        obtain rfl := List.mem_singleton.mp hc
        intro hcf k hk
        subst hk
        exact (countRight_iff hcf (Nat.le_of_eq (hfull k hcf rfl))).mpr (hfull k hcf rfl) hcf k rfl
      · intro written hw
        rw [loopWritten_one] at hw
        cases hcf : (int21_40 m r).2 with
        | true =>
          rw [hcf] at hw
          cases hw
        | false =>
          rw [hcf] at hw
          cases r with
          | none =>
            rw [(int21_40_count m none).1] at hcf
            simp at hcf
          | some k =>
            rw [← Option.some.inj hw, Option.getD_some, hfull k hcf rfl]
            exact List.take_length

/-- AH=40 on standard output with CX=3. -/
def threeBytes : Machine :=
  { bootMachine with cpu := { zeroCpu with
      regs := Function.update (Function.update zeroCpu.regs .ebx 1) .ecx 3 } }

theorem shortWrites_right_iff_all : WritesRight (fun _ => false) threeBytes [some 3] := by
  refine (shortWrites_right_iff (fun _ => false) threeBytes [some 3] fun c hc k hk => ?_).mpr fun k _ hk => ?_
  · rw [loopCalls_one] at hc
    obtain rfl := List.mem_singleton.mp hc
    cases hk
    decide +kernel
  · cases hk
    decide +kernel

/-- The host takes one byte of three, and AH=40 reports three. -/
theorem shortWrite_lost : ¬ WritesRight (fun _ => false) threeBytes [some 1] := by
  intro h
  have htaken : loopWritten (fun _ => false) threeBytes [some 1] =
      some ((handed (fun _ => false) threeBytes).take 1) := by
    rw [loopWritten_one, if_neg (by decide +kernel), Option.getD_some]
  have hlen := congrArg List.length (h.once _ htaken)
  exact absurd hlen (by decide +kernel)

end Dosiz.ShortWrites
