/-
  Dosiz/WideDivide.lean
  =====================
  **The 64-bit division of INT 80h** (`dosiz_int80` of `bridge.cc`).

  The handler divides EDX:EAX by EBX:ECX, unsigned or signed, and gives the quotient or the remainder.  Quotient and
  remainder of one pair of operands fit together, but the signed quotient of the least number by -1 is no 64-bit
  number, and there the division of the host traps (`int80_exact`).
-/
import Dosiz.Machine
import Mathlib.Data.Int.Order.Basic

namespace Dosiz.WideDivide

open Machine

/-! ### The handler -/

/-- The host's signed division: it has no result when the quotient does not fit. -/
def hostDivide (num den : BitVec 64) : Option (Int × Int) :=
  let q := num.toInt.tdiv den.toInt
  if -9223372036854775808 ≤ q ∧ q < 9223372036854775808 then some (q, num.toInt.tmod den.toInt) else none

/-- The result of operation `op`: 0 and 2 are the unsigned quotient and remainder, 1 is the signed quotient, and
    any other the signed remainder. -/
def divide (num den : BitVec 64) (op : Nat) : Option (BitVec 64) :=
  if den = 0 then some 0
  else if op = 0 then some (num / den)
  else if op = 2 then some (num % den)
  else (hostDivide num den).map fun r => BitVec.ofInt 64 (if op = 1 then r.1 else r.2)

def numerator (m : Machine) : BitVec 64 := m.cpu.regs .edx ++ m.cpu.regs .eax
def denominator (m : Machine) : BitVec 64 := m.cpu.regs .ebx ++ m.cpu.regs .ecx

/-- EDX:EAX after the call. -/
def answer (m : Machine) : BitVec 64 := m.cpu.regs .edx ++ m.cpu.regs .eax

/-- `dosiz_int80`; `none` is a trap of the host. -/
def int80 (m : Machine) : Option Machine :=
  (divide (numerator m) (denominator m) (m.r8l .esi)).map fun w =>
    (m.setR32 .eax (w.toNat % 4294967296)).setR32 .edx (w.toNat / 4294967296)

/-! ### What a division should give -/

/-- The operations that give quotient and remainder as operation `op` understands the operands. -/
def quotientOp (op : Nat) : Nat := if op = 0 ∨ op = 2 then 0 else 1
def remainderOp (op : Nat) : Nat := if op = 0 ∨ op = 2 then 2 else 3

/-- The quotient truncated toward zero. -/
def Truncated (num den : BitVec 64) (op : Nat) (q : BitVec 64) : Prop :=
  if op = 0 ∨ op = 2 then q.toNat = num.toNat / den.toNat else q = BitVec.ofInt 64 (num.toInt.tdiv den.toInt)

/-- The call completes, and with a denominator the quotient and the remainder that the handler gives for these
    operands fit together. -/
def DividesRight (m : Machine) : Prop :=
  ∃ m', int80 m = some m' ∧
    (denominator m = 0 → answer m' = 0) ∧
    (denominator m ≠ 0 → ∃ mq mr, int80 (m.setR8l .esi (quotientOp (m.r8l .esi))) = some mq ∧
      int80 (m.setR8l .esi (remainderOp (m.r8l .esi))) = some mr ∧
      Truncated (numerator m) (denominator m) (m.r8l .esi) (answer mq) ∧
      numerator m = answer mq * denominator m + answer mr ∧
      answer m' = if m.r8l .esi = 0 ∨ m.r8l .esi = 1 then answer mq else answer mr)

/-! ### Truncated division -/

/-- The quotient of two integers of a signed type fits, but for that of the least one by -1. -/
theorem tdiv_fits {bound a b : Int} (hbound : 0 < bound) (ha : -bound ≤ a ∧ a < bound) (hb : b ≠ 0) :
    (-bound ≤ a.tdiv b ∧ a.tdiv b < bound) ↔ ¬ (a = -bound ∧ b = -1) := by
  by_cases hone : b = 1
  · subst hone
    rw [Int.tdiv_one]
    exact iff_of_true ha fun h => absurd h.2 (by decide)
  · by_cases hneg : b = -1
    · subst hneg
      rw [Int.tdiv_neg, Int.tdiv_one]
      omega
    · -- at least halved
      have habs : (a.tdiv b).natAbs = a.natAbs / b.natAbs := Int.natAbs_tdiv a b
      have hhalf : a.natAbs / b.natAbs ≤ a.natAbs / 2 := Nat.div_le_div_left (by omega) (by decide)
      exact iff_of_true (by omega) fun h => hneg h.2

theorem toInt_range (x : BitVec 64) : -9223372036854775808 ≤ x.toInt ∧ x.toInt < 9223372036854775808 :=
  ⟨x.le_toInt, x.toInt_lt⟩

theorem hostDivide_fits {num den : BitVec 64} (hden : den ≠ 0)
    (hfits : ¬ (num = 0x8000000000000000 ∧ den = 0xFFFFFFFFFFFFFFFF)) :
    hostDivide num den = some (num.toInt.tdiv den.toInt, num.toInt.tmod den.toInt) := by
  refine if_pos ((tdiv_fits (by decide) (toInt_range num) fun h => hden ?_).mpr ?_)
  · exact BitVec.eq_of_toInt_eq h
  · rintro ⟨hnum, hneg⟩
    exact hfits ⟨BitVec.eq_of_toInt_eq hnum, BitVec.eq_of_toInt_eq hneg⟩

/-! ### The two operations together -/

/-- Unsigned quotient and remainder. -/
theorem unsigned_together (num den : BitVec 64) : num = num / den * den + num % den := by
  apply BitVec.eq_of_toNat_eq
  rw [BitVec.toNat_add, BitVec.toNat_mul, BitVec.toNat_udiv, BitVec.toNat_umod, Nat.mod_add_mod,
    Nat.div_add_mod', Nat.mod_eq_of_lt num.isLt]

/-- Signed quotient and remainder, as words. -/
theorem signed_together (num den : BitVec 64) :
    num = BitVec.ofInt 64 (num.toInt.tdiv den.toInt) * den + BitVec.ofInt 64 (num.toInt.tmod den.toInt) := by
  calc num = BitVec.ofInt 64 (num.toInt.tdiv den.toInt * den.toInt + num.toInt.tmod den.toInt) := by
        rw [Int.tdiv_mul_add_tmod, BitVec.ofInt_toInt]
    _ = _ := by rw [BitVec.ofInt_add, BitVec.ofInt_mul, BitVec.ofInt_toInt]

/-! ### The registers -/

theorem halves_append (w : BitVec 64) :
    BitVec.ofNat 32 (w.toNat / 4294967296) ++ BitVec.ofNat 32 (w.toNat % 4294967296) = w := by
  have hw := w.isLt
  apply BitVec.eq_of_toNat_eq
  rw [BitVec.toNat_append, BitVec.toNat_ofNat, BitVec.toNat_ofNat,
    ← Nat.shiftLeft_add_eq_or_of_lt (Nat.mod_lt _ (by decide)), Nat.shiftLeft_eq]
  omega

section Registers

variable {m m' : Machine} {op : Nat}

/-- The call gives the result of the division in EDX:EAX. -/
theorem int80_answer {w : BitVec 64} (h : divide (numerator m) (denominator m) (m.r8l .esi) = some w) :
    ∃ m', int80 m = some m' ∧ answer m' = w := by
  refine ⟨_, by rw [int80, h]; rfl, ?_⟩
  rw [answer]
  exact halves_append w

theorem int80_of_some (h : int80 m = some m') :
    divide (numerator m) (denominator m) (m.r8l .esi) = some (answer m') := by
  cases hdiv : divide (numerator m) (denominator m) (m.r8l .esi) with
  | none =>
    rw [int80, hdiv] at h
    cases h
  | some w =>
    obtain ⟨m'', hcall, hanswer⟩ := int80_answer hdiv
    rw [h] at hcall
    cases hcall
    rw [hanswer]

/-- Another operation on the same operands. -/
theorem int80_withOp {w : BitVec 64} (hop : op < 256) (h : divide (numerator m) (denominator m) op = some w) :
    ∃ m', int80 (m.setR8l .esi op) = some m' ∧ answer m' = w := by
  refine int80_answer ?_
  have hesi : (m.setR8l .esi op).r8l .esi = op := (r8l_setR8l m .esi op).trans (Nat.mod_eq_of_lt hop)
  rw [hesi]
  exact h

end Registers

/-! ### Which divisions are right -/

section Divisions

variable {num den : BitVec 64} {op : Nat}

/-- Without the one quotient the two operations complete, and their results fit together. -/
theorem divide_pair (hden : den ≠ 0)
    (hfits : ¬ (num = 0x8000000000000000 ∧ den = 0xFFFFFFFFFFFFFFFF ∧ op ≠ 0 ∧ op ≠ 2)) :
    ∃ q r, divide num den (quotientOp op) = some q ∧ divide num den (remainderOp op) = some r ∧
      Truncated num den op q ∧ num = q * den + r ∧
      divide num den op = some (if op = 0 ∨ op = 1 then q else r) := by
  by_cases hunsigned : op = 0 ∨ op = 2
  · refine ⟨num / den, num % den, ?_, ?_, ?_, unsigned_together num den, ?_⟩
    · rw [quotientOp, if_pos hunsigned, divide, if_neg hden, if_pos rfl]
    · rw [remainderOp, if_pos hunsigned, divide, if_neg hden, if_neg (by decide), if_pos rfl]
    · rw [Truncated, if_pos hunsigned, BitVec.toNat_udiv]
    · rcases hunsigned with rfl | rfl
      · rw [divide, if_neg hden, if_pos rfl, if_pos (.inl rfl)]
      · rw [divide, if_neg hden, if_neg (by decide), if_pos rfl, if_neg (by decide)]
  · obtain ⟨hop₀, hop₂⟩ := not_or.mp hunsigned
    have hhost := hostDivide_fits hden fun h => hfits ⟨h.1, h.2, hop₀, hop₂⟩
    refine ⟨_, _, ?_, ?_, ?_, signed_together num den, ?_⟩
    · rw [quotientOp, if_neg hunsigned, divide, if_neg hden, if_neg (by decide), if_neg (by decide), hhost]
      rfl
    · rw [remainderOp, if_neg hunsigned, divide, if_neg hden, if_neg (by decide), if_neg (by decide), hhost]
      rfl
    · rw [Truncated, if_neg hunsigned]
    · rw [divide, if_neg hden, if_neg hop₀, if_neg hop₂, hhost, Option.map_some]
      by_cases hone : op = 1
      · rw [if_pos hone, if_pos (.inr hone)]
      · rw [if_neg hone, if_neg (fun h => h.elim hop₀ hone)]

/-- The one quotient has no result. -/
theorem divide_traps (hop₀ : op ≠ 0) (hop₂ : op ≠ 2) : divide 0x8000000000000000 0xFFFFFFFFFFFFFFFF op = none := by
  have hhost : hostDivide 0x8000000000000000 0xFFFFFFFFFFFFFFFF = none := by decide
  rw [divide, if_neg (by decide), if_neg hop₀, if_neg hop₂, hhost]
  rfl

/-- **The division is right, and completes, but for one signed quotient**: that of the least number by -1. -/
theorem int80_exact (m : Machine) :
    DividesRight m ↔ ¬ (numerator m = 0x8000000000000000 ∧ denominator m = 0xFFFFFFFFFFFFFFFF ∧
      m.r8l .esi ≠ 0 ∧ m.r8l .esi ≠ 2) := by
  constructor
  · rintro ⟨m', hcall, -⟩ ⟨hnum, hden, hop₀, hop₂⟩
    have hdiv := int80_of_some hcall
    rw [hnum, hden, divide_traps hop₀ hop₂] at hdiv
    cases hdiv
  · intro hfits
    by_cases hden : denominator m = 0
    · obtain ⟨m', hcall, hanswer⟩ := int80_answer (m := m) (w := 0) (by rw [divide, if_pos hden])
      exact ⟨m', hcall, fun _ => hanswer, fun h => absurd hden h⟩
    · obtain ⟨q, r, hq, hr, htrunc, htogether, hop⟩ := divide_pair hden hfits
      obtain ⟨m', hcall, hanswer⟩ := int80_answer hop
      obtain ⟨mq, hcallq, rfl⟩ := int80_withOp (by rw [quotientOp]; split <;> decide) hq
      obtain ⟨mr, hcallr, rfl⟩ := int80_withOp (by rw [remainderOp]; split <;> decide) hr
      exact ⟨m', hcall, fun h => absurd h hden, fun _ => ⟨mq, mr, hcallq, hcallr, htrunc, htogether, hanswer⟩⟩

end Divisions

/-- The least number in EDX:EAX, -1 in EBX:ECX, and operation 1. -/
def leastByMinusOne : Machine :=
  bootMachine.setRegs fun
    | .edx => 0x80000000
    | .ebx => 0xFFFFFFFF
    | .ecx => 0xFFFFFFFF
    | .esi => 1
    | _ => 0

theorem int80_least_by_minus_one : ¬ ∀ m : Machine, DividesRight m := by
  intro h
  obtain ⟨m', hcall, -⟩ := h leastByMinusOne
  have htrap : divide (numerator leastByMinusOne) (denominator leastByMinusOne) (leastByMinusOne.r8l .esi) = none := by
    decide +kernel
  have hdiv := int80_of_some hcall
  rw [htrap] at hdiv
  cases hdiv

end Dosiz.WideDivide
