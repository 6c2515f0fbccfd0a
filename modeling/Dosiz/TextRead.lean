/-
  Dosiz/TextRead.lean
  ===================
  **Text mode on standard input** (INT 21h AH=3F of `bridge.cc`).

  A line feed of the stream is returned as CR LF; where only the CR has room, the LF is kept back for the next
  call.  A 1Ah ends the read that comes to it, and is gone: the next one goes on behind it.  So what a program
  reads is independent of the sizes it asks for exactly if nothing but 1Ah follows the first one
  (`textReads_right_iff`).
-/
import Dosiz.FindTimes

namespace Dosiz.TextRead

open ByteMemory Machine FileHandles

/-! ### The read -/

/-- The stream that is left, and the byte kept back (`stdin_pending`). -/
structure TextIn where
  pending : Option UInt8
  input : List UInt8
  deriving DecidableEq

/-- The text loop of AH=3F, with room for `n` bytes: the bytes it stores, and what it leaves. -/
def readText : Nat → TextIn → List UInt8 × TextIn
  | 0, s => ([], s)
  | n + 1, ⟨some b, input⟩ =>
    let r := readText n ⟨none, input⟩
    (b :: r.1, r.2)
  | _ + 1, ⟨none, []⟩ => ([], ⟨none, []⟩)
  | n + 1, ⟨none, b :: input⟩ =>
    if b = 0x1A then ([], ⟨none, input⟩)
    else if b = 0x0A then
      match n with
      | 0 => ([0x0D], ⟨some 0x0A, input⟩)
      | n + 1 =>
        let r := readText n ⟨none, input⟩
        (0x0D :: 0x0A :: r.1, r.2)
    else
      let r := readText n ⟨none, input⟩
      (b :: r.1, r.2)

/-- CX, or ECX for a 32-bit client. -/
def readCount (m : Machine) : Nat := if pm32 m then m.r32 .ecx else m.cx

/-- AH=3F on handle 0 in text mode. -/
def int21_3F_text (m : Machine) (s : TextIn) : (Machine × Bool) × TextIn :=
  let r := readText (readCount m) s
  (int21_3F m ⟨s.input.length - r.2.input.length, r.1.map UInt8.toNat, false⟩, r.2)

/-- AX, or EAX: the count a call returns. -/
def countOf (m : Machine) : Nat := if pm32 m then m.r32 .eax else m.ax

/-- The bytes the call has returned: as many as it says, where DS:DX pointed. -/
def returned (m m' : Machine) : List Nat :=
  (List.range (countOf m')).map fun i => readb m'.mem (lin (dosArgAddr m .ds .edx + i))

/-! ### What the reads are to come to -/

/-- Each LF as CR LF. -/
def expand (bs : List UInt8) : List UInt8 := bs.flatMap fun b => if b = 0x0A then [0x0D, 0x0A] else [b]

/-- The stream as the calls find it, each with the registers of its own machine. -/
def inputAt (stream : List UInt8) (ms : Nat → Machine) : Nat → TextIn
  | 0 => ⟨none, stream⟩
  | i + 1 => (int21_3F_text (ms i) (inputAt stream ms i)).2

/-- The bytes call `i` returns. -/
def readAt (stream : List UInt8) (ms : Nat → Machine) (i : Nat) : List Nat :=
  returned (ms i) (int21_3F_text (ms i) (inputAt stream ms i)).1.1

/-- Up to the first read that returns nothing the program has read the stream up to its first 1Ah, each LF as
    CR LF; and from there on every read returns nothing. -/
def ReadsRight (stream : List UInt8) (ms : Nat → Machine) : Prop :=
  ∃ k, (∀ i < k, readAt stream ms i ≠ []) ∧
    (List.range k).flatMap (readAt stream ms) = (expand (stream.takeWhile (· ≠ 0x1A))).map UInt8.toNat ∧
      ∀ j, k ≤ j → readAt stream ms j = []

/-! ### One read -/

theorem readText_pending (n : Nat) (b : UInt8) (input : List UInt8) : readText (n + 1) ⟨some b, input⟩ =
    (b :: (readText n ⟨none, input⟩).1, (readText n ⟨none, input⟩).2) := rfl

/-- An LF is as if the CR came alone and the LF were kept back. -/
theorem readText_lf (n : Nat) (input : List UInt8) : readText (n + 1) ⟨none, 0x0A :: input⟩ =
    (0x0D :: (readText n ⟨some 0x0A, input⟩).1, (readText n ⟨some 0x0A, input⟩).2) := by
  rw [readText.eq_def]
  dsimp only
  rw [if_neg (by decide), if_pos rfl]
  cases n with
  | zero => rfl
  | succ n => rw [readText_pending]

theorem readText_end (n : Nat) (input : List UInt8) : readText (n + 1) ⟨none, 0x1A :: input⟩ = ([], ⟨none, input⟩) := by
  rw [readText.eq_def]
  exact if_pos rfl

theorem readText_other (n : Nat) {b : UInt8} (h₁ : b ≠ 0x1A) (h₂ : b ≠ 0x0A) (input : List UInt8) :
    readText (n + 1) ⟨none, b :: input⟩ = (b :: (readText n ⟨none, input⟩).1, (readText n ⟨none, input⟩).2) := by
  rw [readText.eq_def]
  exact (if_neg h₁).trans (if_neg h₂)

theorem readText_length : ∀ (n : Nat) (s : TextIn), (readText n s).1.length ≤ n
  | 0, _ => Nat.le_refl 0
  | n + 1, ⟨some b, input⟩ => by
    rw [readText_pending]
    exact Nat.succ_le_succ (readText_length n _)
  | n + 1, ⟨none, []⟩ => Nat.zero_le _
  | n + 1, ⟨none, b :: input⟩ => by
    by_cases h₁ : b = 0x1A
    · rw [h₁, readText_end]
      exact Nat.zero_le _
    · by_cases h₂ : b = 0x0A
      · rw [h₂, readText_lf]
        exact Nat.succ_le_succ (readText_length n _)
      · rw [readText_other n h₁ h₂]
        exact Nat.succ_le_succ (readText_length n _)

/-- What a read takes from the stream it returns, but for the 1Ah and for an LF it keeps back. -/
theorem readText_conserves : ∀ (n : Nat) (s : TextIn), ∃ taken, s.input = taken ++ (readText n s).2.input ∧
    s.pending.toList ++ expand (taken.filter (· ≠ 0x1A)) = (readText n s).1 ++ (readText n s).2.pending.toList
  | 0, s => ⟨[], rfl, List.append_nil _⟩
  | n + 1, ⟨some b, input⟩ => by
    obtain ⟨taken, hinput, hout⟩ := readText_conserves n ⟨none, input⟩
    rw [readText_pending]
    exact ⟨taken, hinput, congrArg (b :: ·) hout⟩
  | n + 1, ⟨none, []⟩ => ⟨[], rfl, rfl⟩
  | n + 1, ⟨none, b :: input⟩ => by
    by_cases h₁ : b = 0x1A
    · rw [h₁, readText_end]
      exact ⟨[0x1A], rfl, rfl⟩
    · have hkeep : ∀ taken, expand ((b :: taken).filter (· ≠ 0x1A)) =
          (if b = 0x0A then [0x0D, 0x0A] else [b]) ++ expand (taken.filter (· ≠ 0x1A)) := fun taken => by
        rw [List.filter_cons_of_pos (by simpa using h₁)]
        exact List.flatMap_cons
      by_cases h₂ : b = 0x0A
      · obtain ⟨taken, hinput, hout⟩ := readText_conserves n ⟨some 0x0A, input⟩
        rw [h₂, readText_lf]
        refine ⟨0x0A :: taken, congrArg (0x0A :: ·) hinput, ?_⟩
        have hlf := hkeep taken
        rw [h₂, if_pos rfl] at hlf
        rw [hlf]
        exact congrArg (0x0D :: ·) hout
      · obtain ⟨taken, hinput, hout⟩ := readText_conserves n ⟨none, input⟩
        rw [readText_other n h₁ h₂]
        refine ⟨b :: taken, congrArg (b :: ·) hinput, ?_⟩
        rw [hkeep, if_neg h₂]
        exact congrArg (b :: ·) hout

/-- A read that returns nothing is at the end of the stream, or has come to a 1Ah. -/
theorem readText_nothing {n : Nat} {s : TextIn} (h : (readText (n + 1) s).1 = []) :
    s = ⟨none, []⟩ ∨ ∃ rest, s = ⟨none, 0x1A :: rest⟩ := by
  obtain ⟨pending, input⟩ := s
  cases pending with
  | some b =>
    rw [readText_pending] at h
    cases h
  | none =>
    cases input with
    | nil => exact Or.inl rfl
    | cons b input =>
      by_cases h₁ : b = 0x1A
      · exact Or.inr ⟨input, by rw [h₁]⟩
      · by_cases h₂ : b = 0x0A
        · rw [h₂, readText_lf] at h
          cases h
        · rw [readText_other n h₁ h₂] at h
          cases h

/-- What the reads have still to do. -/
def TextIn.work (s : TextIn) : Nat := 2 * s.input.length + s.pending.toList.length

theorem readText_work_le : ∀ (n : Nat) (s : TextIn), (readText n s).2.work ≤ s.work
  | 0, _ => Nat.le_refl _
  | n + 1, ⟨some b, input⟩ => by
    have ih := readText_work_le n ⟨none, input⟩
    rw [readText_pending]
    simp only [TextIn.work, Option.toList_some, Option.toList_none, List.length_singleton, List.length_nil] at ih ⊢
    omega
  | n + 1, ⟨none, []⟩ => Nat.le_refl _
  | n + 1, ⟨none, b :: input⟩ => by
    by_cases h₁ : b = 0x1A
    · rw [h₁, readText_end]
      simp only [TextIn.work, List.length_cons]
      omega
    · by_cases h₂ : b = 0x0A
      · have ih := readText_work_le n ⟨some 0x0A, input⟩
        rw [h₂, readText_lf]
        simp only [TextIn.work, Option.toList_some, Option.toList_none, List.length_cons, List.length_nil] at ih ⊢
        omega
      · have ih := readText_work_le n ⟨none, input⟩
        rw [readText_other n h₁ h₂]
        simp only [TextIn.work, Option.toList_none, List.length_cons, List.length_nil] at ih ⊢
        omega

/-- A read with room for a byte gets on, unless there is nothing left. -/
theorem readText_work_lt (n : Nat) {s : TextIn} (h : s ≠ ⟨none, []⟩) : (readText (n + 1) s).2.work < s.work := by
  obtain ⟨pending, input⟩ := s
  cases pending with
  | some b =>
    have hle := readText_work_le n ⟨none, input⟩
    rw [readText_pending]
    simp only [TextIn.work, Option.toList_some, Option.toList_none, List.length_singleton, List.length_nil] at hle ⊢
    omega
  | none =>
    cases input with
    | nil => exact absurd rfl h
    | cons b input =>
      by_cases h₁ : b = 0x1A
      · rw [h₁, readText_end]
        simp only [TextIn.work, List.length_cons]
        omega
      · by_cases h₂ : b = 0x0A
        · have hle := readText_work_le n ⟨some 0x0A, input⟩
          rw [h₂, readText_lf]
          simp only [TextIn.work, Option.toList_some, Option.toList_none, List.length_cons, List.length_nil] at hle ⊢
          omega
        · have hle := readText_work_le n ⟨none, input⟩
          rw [readText_other n h₁ h₂]
          simp only [TextIn.work, Option.toList_none, List.length_cons, List.length_nil] at hle ⊢
          omega

/-! ### What the guest sees -/

theorem readCount_lt (m : Machine) : readCount m < 4294967296 ∧ (pm32 m = false → readCount m < 65536) := by
  have hlow : m.cx < 65536 := Nat.mod_lt _ (by decide)
  unfold readCount
  cases hpm : pm32 m with
  | true => exact ⟨m.r32_lt .ecx, fun h => by cases h⟩
  | false =>
    rw [if_neg Bool.false_ne_true]
    exact ⟨by omega, fun _ => hlow⟩

theorem setCount_mem (m : Machine) (n : Nat) : (setCount m n).mem = m.mem := by
  unfold setCount
  split <;> rfl

theorem countOf_setCount {m : Machine} {n : Nat} (h : n ≤ readCount m) : countOf (setCount m n) = n := by
  have hlt := readCount_lt m
  unfold countOf setCount
  cases hpm : pm32 m with
  | true =>
    have hsame : pm32 (m.setR32 .eax n) = true := hpm
    rw [if_pos rfl, hsame, if_pos rfl, r32_setR32]
    exact Nat.mod_eq_of_lt (by omega)
  | false =>
    have hsame : pm32 (m.setR16 .eax n) = false := hpm
    have hword := hlt.2 hpm
    rw [if_neg Bool.false_ne_true, hsame, if_neg Bool.false_ne_true, ax, r16_setR16]
    exact Nat.mod_eq_of_lt (by omega)

/-- What AH=3F stores is what it returns. -/
theorem returned_3F {m : Machine} {a : ReadAnswer} (hbx : m.bx = 0) (hok : a.failed = false)
    (hlen : a.stored.length ≤ readCount m) (hbytes : ∀ b ∈ a.stored, b < 256) :
    returned m (int21_3F m a).1 = a.stored := by
  have hcall : int21_3F m a =
      (setCount (m.setMem (storeLin m.mem (dosArgAddr m .ds .edx) a.stored)) a.stored.length, false) := by
    unfold int21_3F readFd
    rw [if_pos hbx]
    dsimp only
    rw [hok, if_neg Bool.false_ne_true]
  have hcount : countOf (setCount (m.setMem (storeLin m.mem (dosArgAddr m .ds .edx) a.stored)) a.stored.length) =
      a.stored.length := countOf_setCount hlen
  have hmax := (readCount_lt m).1
  rw [hcall, returned, hcount, setCount_mem]
  refine List.ext_getElem (by rw [List.length_map, List.length_range]) fun i h₁ h₂ => ?_
  simp only [List.getElem_map, List.getElem_range]
  refine (FindTimes.readb_storeLin m.mem _ _ (by omega) h₂).trans ?_
  exact Nat.mod_eq_of_lt (hbytes _ (List.getElem_mem h₂))

section Calls

variable {stream : List UInt8} {ms : Nat → Machine}

theorem readAt_eq (hbx : ∀ i, (ms i).bx = 0) (i : Nat) : readAt stream ms i =
    (readText (readCount (ms i)) (inputAt stream ms i)).1.map UInt8.toNat := by
  refine returned_3F (hbx i) rfl ?_ fun b hb => ?_
  · rw [List.length_map]
    exact readText_length _ _
  · obtain ⟨c, -, rfl⟩ := List.mem_map.mp hb
    exact c.toNat_lt

theorem readAt_nil (hbx : ∀ i, (ms i).bx = 0) (i : Nat) : readAt stream ms i = [] ↔
    (readText (readCount (ms i)) (inputAt stream ms i)).1 = [] := by
  rw [readAt_eq hbx, List.map_eq_nil_iff]

theorem inputAt_succ (i : Nat) :
    inputAt stream ms (i + 1) = (readText (readCount (ms i)) (inputAt stream ms i)).2 := rfl

/-! ### All reads -/

/-- What the first `n` reads have taken from the stream they have returned, but for the 1Ah and for an LF that is
    kept back. -/
theorem reads_conserve (hbx : ∀ i, (ms i).bx = 0) : ∀ n, ∃ taken, stream = taken ++ (inputAt stream ms n).input ∧
    (expand (taken.filter (· ≠ 0x1A))).map UInt8.toNat = (List.range n).flatMap (readAt stream ms) ++
      (inputAt stream ms n).pending.toList.map UInt8.toNat
  | 0 => ⟨[], rfl, rfl⟩
  | n + 1 => by
    obtain ⟨taken, hstream, hout⟩ := reads_conserve hbx n
    obtain ⟨more, hinput, hmore⟩ := readText_conserves (readCount (ms n)) (inputAt stream ms n)
    refine ⟨taken ++ more, ?_, ?_⟩
    · rw [List.append_assoc, inputAt_succ, ← hinput, ← hstream]
    · have hexpand : expand ((taken ++ more).filter (· ≠ 0x1A)) =
          expand (taken.filter (· ≠ 0x1A)) ++ expand (more.filter (· ≠ 0x1A)) := by
        rw [List.filter_append]
        exact List.flatMap_append
      rw [hexpand, List.map_append, hout, List.append_assoc, ← List.map_append, hmore, List.range_succ,
        List.flatMap_append, List.flatMap_singleton, readAt_eq hbx n, List.map_append, List.append_assoc]
      rfl

/-- The reads come to the end of the stream. -/
theorem reads_end (hpos : ∀ i, 0 < readCount (ms i)) : ∃ n, ∀ j, n ≤ j → inputAt stream ms j = ⟨none, []⟩ := by
  have hstep : ∀ i, inputAt stream ms (i + 1) = (readText (readCount (ms i) - 1 + 1) (inputAt stream ms i)).2 := by
    intro i
    rw [inputAt_succ, Nat.sub_add_cancel (hpos i)]
  have hwork : ∀ i, (inputAt stream ms i).work + i ≤ 2 * stream.length ∨ inputAt stream ms i = ⟨none, []⟩ := by
    intro i
    induction i with
    | zero => exact Or.inl (Nat.le_refl _)
    | succ i ih =>
      by_cases hdone : inputAt stream ms i = ⟨none, []⟩
      · refine Or.inr ?_
        rw [hstep, hdone]
        rfl
      · have hlt := readText_work_lt (readCount (ms i) - 1) hdone
        have hle := ih.resolve_right hdone
        rw [hstep]
        exact Or.inl (by omega)
  refine ⟨2 * stream.length + 1, fun j hj => (hwork j).resolve_left (by omega)⟩

theorem expand_eq_nil {bs : List UInt8} (h : expand bs = []) : bs = [] := by
  cases bs with
  | nil => rfl
  | cons b bs =>
    rw [expand, List.flatMap_cons] at h
    have hhead := (List.append_eq_nil_iff.mp h).1
    split at hhead <;> cases hhead

/-- The stream without its 1Ah: what stands before the first, and the rest without them. -/
theorem filter_split (bs : List UInt8) : bs.filter (· ≠ 0x1A) =
    bs.takeWhile (· ≠ 0x1A) ++ (bs.dropWhile (· ≠ 0x1A)).filter (· ≠ 0x1A) := by
  have hfirst : (bs.takeWhile (· ≠ 0x1A)).filter (· ≠ 0x1A) = bs.takeWhile (· ≠ 0x1A) := by
    refine List.filter_eq_self.mpr fun b hb => ?_
    exact List.mem_takeWhile_imp (p := (· ≠ (0x1A : UInt8))) hb
  have hsplit := congrArg (List.filter (· ≠ 0x1A)) (List.takeWhile_append_dropWhile (p := (· ≠ 0x1A)) (l := bs))
  rw [List.filter_append, hfirst] at hsplit
  exact hsplit.symm

theorem filter_only {bs : List UInt8} (h : ∀ b ∈ bs, b = 0x1A) : bs.filter (· ≠ 0x1A) = [] :=
  List.filter_eq_nil_iff.mpr fun b hb => by simpa using h b hb

/-- What is left from a 1Ah on has nothing but 1Ah in it. -/
theorem only_ends {taken rest : List UInt8} (h : ∀ b ∈ stream.dropWhile (· ≠ 0x1A), b = 0x1A)
    (hstream : stream = taken ++ 0x1A :: rest) : ∀ b ∈ rest, b = 0x1A := by
  intro b hb
  refine h b ?_
  rw [hstream, List.dropWhile_append]
  split
  · rw [List.dropWhile_cons_of_neg (by decide)]
    exact List.mem_cons_of_mem _ hb
  · exact List.mem_append_right _ (List.mem_cons_of_mem _ hb)

/-- From a stretch of 1Ah on every read returns nothing. -/
theorem reads_after (hbx : ∀ i, (ms i).bx = 0) (hpos : ∀ i, 0 < readCount (ms i)) {k : Nat} {rest : List UInt8}
    (hk : inputAt stream ms k = ⟨none, rest⟩) (hrest : ∀ b ∈ rest, b = 0x1A) :
    ∀ j, k ≤ j → readAt stream ms j = [] := by
  have hstep : ∀ j, k ≤ j → ∃ l, inputAt stream ms j = ⟨none, l⟩ ∧ ∀ b ∈ l, b = 0x1A := by
    intro j hj
    induction j, hj using Nat.le_induction with
    | base => exact ⟨rest, hk, hrest⟩
    | succ j hj ih =>
      obtain ⟨l, hl, hall⟩ := ih
      rw [inputAt_succ, hl, ← Nat.sub_add_cancel (hpos j)]
      cases l with
      | nil => exact ⟨[], rfl, hall⟩
      | cons b l =>
        obtain ⟨rfl, hl'⟩ := List.forall_mem_cons.mp hall
        rw [readText_end]
        exact ⟨l, rfl, hl'⟩
  intro j hj
  obtain ⟨l, hl, hall⟩ := hstep j hj
  rw [readAt_nil hbx, hl, ← Nat.sub_add_cancel (hpos j)]
  cases l with
  | nil => rfl
  | cons b l =>
    rw [(List.forall_mem_cons.mp hall).1, readText_end]

/-- **Text mode on standard input.**  Whatever counts the calls ask for, what they return is the stream up to its
    first 1Ah with each LF as CR LF, and then nothing any more, exactly if only 1Ah follows the first one. -/
theorem textReads_right_iff (stream : List UInt8) {ms : Nat → Machine} (hbx : ∀ i, (ms i).bx = 0)
    (hpos : ∀ i, 0 < readCount (ms i)) :
    ReadsRight stream ms ↔ ∀ b ∈ stream.dropWhile (· ≠ 0x1A), b = 0x1A := by
  obtain ⟨n, hend⟩ := @reads_end stream ms hpos
  constructor
  · rintro ⟨k, -, hout, hnil⟩
    -- in the end the whole stream is taken, and nothing more was returned
    obtain ⟨taken, hstream, hall⟩ := @reads_conserve stream ms hbx (k + n)
    rw [hend (k + n) (Nat.le_add_left n k)] at hstream hall
    rw [List.append_nil] at hstream
    subst hstream
    have hsame : (List.range (k + n)).flatMap (readAt stream ms) = (List.range k).flatMap (readAt stream ms) := by
      rw [List.range_add, List.flatMap_append]
      refine (congrArg _ (List.flatMap_eq_nil_iff.mpr fun j hj => ?_)).trans (List.append_nil _)
      obtain ⟨i, -, rfl⟩ := List.mem_map.mp hj
      exact hnil _ (Nat.le_add_right k i)
    rw [hsame, hout, Option.toList_none, List.map_nil, List.append_nil, filter_split] at hall
    have hlen := congrArg List.length hall
    rw [expand, List.flatMap_append, List.map_append, List.length_append, List.length_map, List.length_map,
      List.length_map, ← expand, ← expand] at hlen
    have hrest : (stream.dropWhile (· ≠ 0x1A)).filter (· ≠ 0x1A) = [] :=
      expand_eq_nil (List.length_eq_zero_iff.mp (by omega))
    intro b hb
    by_contra hne
    exact List.filter_eq_nil_iff.mp hrest b hb (by simpa using hne)
  · intro honly
    have hfirst : ∃ k, readAt stream ms k = [] := by
      refine ⟨n, ?_⟩
      rw [readAt_nil hbx, hend n (Nat.le_refl n), ← Nat.sub_add_cancel (hpos n)]
      rfl
    obtain ⟨taken, hstream, hout⟩ := @reads_conserve stream ms hbx (Nat.find hfirst)
    have hnothing := (readAt_nil hbx _).mp (Nat.find_spec hfirst)
    rw [← Nat.sub_add_cancel (hpos (Nat.find hfirst))] at hnothing
    obtain ⟨rest, hstate, hrest⟩ : ∃ rest, inputAt stream ms (Nat.find hfirst) = ⟨none, rest⟩ ∧ ∀ b ∈ rest, b = 0x1A := by
      rcases readText_nothing hnothing with hdone | ⟨rest, hdone⟩
      · exact ⟨[], hdone, fun b hb => absurd hb List.not_mem_nil⟩
      · rw [hdone] at hstream
        exact ⟨_, hdone, List.forall_mem_cons.mpr ⟨rfl, only_ends honly hstream⟩⟩
    refine ⟨Nat.find hfirst, fun i hi => Nat.find_min hfirst hi, ?_, reads_after hbx hpos hstate hrest⟩
    have hkeep : taken.filter (· ≠ 0x1A) = stream.takeWhile (· ≠ 0x1A) := by
      have hall : stream.filter (· ≠ 0x1A) = taken.filter (· ≠ 0x1A) := by
        rw [hstream, hstate, List.filter_append, filter_only hrest, List.append_nil]
      rw [← hall, filter_split, filter_only honly, List.append_nil]
    rw [← hkeep, hout, hstate]
    exact (List.append_nil _).symm

end Calls

/-- AH=3F with BX=0 and CX=1. -/
def oneByte : Machine := { bootMachine with cpu := { zeroCpu with regs := Function.update zeroCpu.regs .ecx 1 } }

theorem textReads_right_iff_oneByte : ReadsRight [0x41, 0x0A, 0x42, 0x1A] fun _ => oneByte :=
  (textReads_right_iff [0x41, 0x0A, 0x42, 0x1A] (fun _ => by decide +kernel) fun _ => by decide +kernel).mpr
    (by decide +kernel)

/-- Behind a 1Ah the reads go on with what follows. -/
theorem textReads_goOn : ¬ ReadsRight [0x41, 0x1A, 0x42] fun _ => oneByte := by
  have hbx : ∀ _ : Nat, oneByte.bx = 0 := fun _ => by decide +kernel
  have hend : readAt [0x41, 0x1A, 0x42] (fun _ => oneByte) 1 = [] := by
    rw [readAt_eq hbx]
    decide +kernel
  have hmore : readAt [0x41, 0x1A, 0x42] (fun _ => oneByte) 2 = [0x42] := by
    rw [readAt_eq hbx]
    decide +kernel
  rintro ⟨k, hne, -, hnil⟩
  by_cases hk : k ≤ 2
  · rw [hnil 2 hk] at hmore
    cases hmore
  · exact hne 1 (by omega) hend

end Dosiz.TextRead
