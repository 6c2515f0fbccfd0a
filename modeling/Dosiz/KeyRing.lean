/-
  Dosiz/KeyRing.lean
  ==================
  **The keyboard ring of the BIOS data area** (`kbd_ring_init`, `kbd_ring_push`, `kbd_ring_peek` and `kbd_ring_pop`
  of `bridge.cc`).

  The words at 41Ah and 41Ch are the offsets in segment 40h of the next key to take and of the next free entry.  While
  nobody else writes there, the ring is a queue of 15 keys (`kbdRing_fifo`).
-/
import Dosiz.RingQueue
import Dosiz.TracedMemory

namespace Dosiz.KeyRing

open ByteMemory TracedMemory Transition RingQueue

/-! ### The ring in memory -/

def kbdRingInit (t : Traced) : Traced := (t.writew 0x41A 0x1E).writew 0x41C 0x1E

/-- The offset of the entry that follows. -/
def nextEntry (off : Nat) : Nat :=
  let next := (off + 2) % 65536
  if 0x3E ≤ next then 0x1E else next

def kbdRingPush (t : Traced) (key : UInt16) : Traced :=
  let tail := readw t.mem 0x41C
  let next := nextEntry tail
  if next = readw t.mem 0x41A then t
  else (t.writew (0x400 + tail) key.toNat).writew 0x41C next

def kbdRingPeek (t : Traced) : Option UInt16 :=
  let head := readw t.mem 0x41A
  if head = readw t.mem 0x41C then none else some (UInt16.ofNat (readw t.mem (0x400 + head)))

def kbdRingPop (t : Traced) : Option UInt16 × Traced :=
  let head := readw t.mem 0x41A
  if head = readw t.mem 0x41C then (none, t)
  else (some (UInt16.ofNat (readw t.mem (0x400 + head))), t.writew 0x41A (nextEntry head))

/-- The two words and the entries. -/
def ringArea : Set Nat := Set.Ico 0x41A 0x43E

instance (a : Nat) : Decidable (a ∈ ringArea) := inferInstanceAs (Decidable (0x41A ≤ a ∧ a < 0x43E))

/-- A call of the ring, or anything else that leaves it alone. -/
inductive RingEvent where
  | call (c : Call UInt16)
  | elsewhere

def ringStep (t : Traced) : RingEvent → Traced → Prop
  | .call (.push key), t' => t' = kbdRingPush t key
  | .call (.peek r), t' => r = kbdRingPeek t ∧ t' = t
  | .call (.pop r), t' => r = (kbdRingPop t).1 ∧ t' = (kbdRingPop t).2
  | .elsewhere, t' => t'.written = t.written ∧ ∀ a ∈ ringArea, t'.mem a = t.mem a

def RingEvent.call? : RingEvent → Option (Call UInt16)
  | .call c => some c
  | .elsewhere => none

/-- The calls of a run. -/
def ringCalls (es : List RingEvent) : List (Call UInt16) := es.filterMap RingEvent.call?

/-! ### The ring as slots -/

/-- An offset that head and tail may have. -/
def EntryOffset (off : Nat) : Prop := off % 2 = 0 ∧ 0x1E ≤ off ∧ off ≤ 0x3C

def offset (i : Fin 16) : Nat := 0x1E + 2 * i.val

/-- Memory holds the ring `r`. -/
structure KeepsRing (m : Mem) (r : Ring 15 UInt16) : Prop where
  head : readw m 0x41A = offset r.head
  tail : readw m 0x41C = offset r.tail
  cells : ∀ i, readw m (0x400 + offset i) = (r.cell i).toNat

theorem offset_ok (i : Fin 16) : EntryOffset (offset i) := by
  have hlt := i.isLt
  simp only [EntryOffset, offset]
  omega

theorem offset_inj {i j : Fin 16} : offset i = offset j ↔ i = j := by
  refine ⟨fun h => Fin.ext ?_, congrArg offset⟩
  simp only [offset] at h
  omega

theorem nextEntry_offset (i : Fin 16) : nextEntry (offset i) = offset (i + 1) := by
  have hlt := i.isLt
  have hmod : (offset i + 2) % 65536 = offset i + 2 := Nat.mod_eq_of_lt (by simp only [offset]; omega)
  by_cases hlast : i = Fin.last 15
  · subst hlast
    rfl
  · have hne : i.val ≠ 15 := fun h => hlast (Fin.ext h)
    have hval : (i + 1).val = i.val + 1 := by rw [Fin.val_add_one, if_neg hlast]
    have hroom : ¬ 0x3E ≤ offset i + 2 := by
      simp only [offset]
      omega
    rw [nextEntry, hmod, if_neg hroom, offset, offset, hval]
    omega

section Operations

variable {t : Traced} {r : Ring 15 UInt16}

theorem KeepsRing.congr {m m' : Mem} (h : KeepsRing m r) (hsame : ∀ a ∈ ringArea, m' a = m a) : KeepsRing m' r := by
  have hword : ∀ a, 0x41A ≤ a → a < 0x43D → readw m' a = readw m a := fun a h₀ h₁ => by
    simp only [readw, readb]
    rw [hsame a ⟨h₀, by omega⟩, hsame (a + 1) ⟨by omega, by omega⟩]
  refine ⟨?_, ?_, fun i => ?_⟩
  · rw [hword _ (by decide) (by decide), h.head]
  · rw [hword _ (by decide) (by decide), h.tail]
  · obtain ⟨-, hlow, hhigh⟩ := offset_ok i
    rw [hword _ (by omega) (by omega), h.cells i]

theorem kbdRingPush_keeps (h : KeepsRing t.mem r) (key : UInt16) : KeepsRing (kbdRingPush t key).mem (r.push key) := by
  have htail := offset_ok r.tail
  have hfull : nextEntry (offset r.tail) = offset r.head ↔ r.tail + 1 = r.head := by
    rw [nextEntry_offset, offset_inj]
  by_cases hlast : r.tail + 1 = r.head
  · rw [kbdRingPush, h.tail, h.head, if_pos (hfull.mpr hlast), Ring.push, if_pos hlast]
    exact h
  · have hkey := key.toNat_lt
    rw [kbdRingPush, h.tail, h.head, if_neg (fun he => hlast (hfull.mp he)), Ring.push, if_neg hlast]
    refine ⟨?_, ?_, fun i => ?_⟩
    · simp only [Traced.writew_mem]
      rw [readw_writew_of_disjoint (by omega), readw_writew_of_disjoint (by simp only [EntryOffset] at htail; omega),
        h.head]
    · have hnext := offset_ok (r.tail + 1)
      simp only [Traced.writew_mem]
      rw [readw_writew, nextEntry_offset, Nat.mod_eq_of_lt (by simp only [EntryOffset] at hnext; omega)]
    · have hi := offset_ok i
      simp only [EntryOffset] at hi htail
      simp only [Traced.writew_mem]
      rw [readw_writew_of_disjoint (by omega)]
      by_cases hit : i = r.tail
      · rw [hit, readw_writew, Function.update_self, Nat.mod_eq_of_lt hkey]
      · have hne : offset i ≠ offset r.tail := fun he => hit (offset_inj.mp he)
        rw [readw_writew_of_disjoint (by omega), Function.update_of_ne hit, h.cells i]

theorem kbdRingPeek_eq (h : KeepsRing t.mem r) : kbdRingPeek t = r.peek := by
  rw [kbdRingPeek, h.head, h.tail, h.cells, UInt16.ofNat_toNat]
  simp only [offset_inj]
  rfl

/-- A pop takes the key that a peek shows, whatever is in memory. -/
theorem kbdRingPop_fst (t : Traced) : (kbdRingPop t).1 = kbdRingPeek t := by
  by_cases h : readw t.mem 0x41A = readw t.mem 0x41C
  · rw [kbdRingPop, kbdRingPeek, if_pos h, if_pos h]
  · rw [kbdRingPop, kbdRingPeek, if_neg h, if_neg h]

theorem kbdRingPop_keeps (h : KeepsRing t.mem r) : KeepsRing (kbdRingPop t).2.mem r.pop := by
  by_cases hempty : r.head = r.tail
  · rw [kbdRingPop, h.head, h.tail, if_pos (congrArg offset hempty), Ring.pop, if_pos hempty]
    exact h
  · have hnext := offset_ok (r.head + 1)
    simp only [EntryOffset] at hnext
    rw [kbdRingPop, h.head, h.tail, if_neg (fun he => hempty (offset_inj.mp he)), Ring.pop, if_neg hempty]
    refine ⟨?_, ?_, fun i => ?_⟩
    · simp only [Traced.writew_mem]
      rw [readw_writew, nextEntry_offset, Nat.mod_eq_of_lt (by omega)]
    · simp only [Traced.writew_mem]
      rw [readw_writew_of_disjoint (by decide), h.tail]
    · have hi := offset_ok i
      simp only [EntryOffset] at hi
      simp only [Traced.writew_mem]
      rw [readw_writew_of_disjoint (by omega), h.cells i]

theorem kbdRingInit_keeps (t : Traced) :
    ∃ r : Ring 15 UInt16, KeepsRing (kbdRingInit t).mem r ∧ r.contents = [] := by
  refine ⟨⟨0, 0, fun i => UInt16.ofNat (readw (kbdRingInit t).mem (0x400 + offset i))⟩, ⟨?_, ?_, fun i => ?_⟩,
    Ring.contents_empty rfl⟩
  · rw [kbdRingInit, Traced.writew_mem, Traced.writew_mem, readw_writew_of_disjoint (by decide), readw_writew]
    rfl
  · rw [kbdRingInit, Traced.writew_mem, readw_writew]
    rfl
  · exact (Nat.mod_eq_of_lt (readw_lt _ _)).symm

end Operations

/-! ### Where the stores go -/

section Stores

variable {t : Traced} {r : Ring 15 UInt16}

theorem kbdRingInit_writes (t : Traced) : Writes ringArea t (kbdRingInit t) :=
  (Writes.writew t 0x1E (by decide) (by decide)).trans (Writes.writew _ 0x1E (by decide) (by decide))

theorem kbdRingPush_writes (h : KeepsRing t.mem r) (key : UInt16) : Writes ringArea t (kbdRingPush t key) := by
  obtain ⟨-, hlow, hhigh⟩ := offset_ok r.tail
  by_cases hfull : nextEntry (readw t.mem 0x41C) = readw t.mem 0x41A
  · rw [kbdRingPush, if_pos hfull]
    exact Writes.refl _ _
  · have hentry : 0x400 + offset r.tail ∈ ringArea ∧ 0x400 + offset r.tail + 1 ∈ ringArea :=
      ⟨⟨by omega, by omega⟩, ⟨by omega, by omega⟩⟩
    rw [kbdRingPush, if_neg hfull, h.tail]
    exact (Writes.writew t _ hentry.1 hentry.2).trans (Writes.writew _ _ (by decide) (by decide))

theorem kbdRingPop_writes (t : Traced) : Writes ringArea t (kbdRingPop t).2 := by
  by_cases hempty : readw t.mem 0x41A = readw t.mem 0x41C
  · rw [kbdRingPop, if_pos hempty]
    exact Writes.refl _ _
  · rw [kbdRingPop, if_neg hempty]
    exact Writes.writew t _ (by decide) (by decide)

/-- A push is dropped, with no store at all, exactly when 15 keys are queued. -/
theorem kbdRingPush_dropped (h : KeepsRing t.mem r) (key : UInt16) :
    kbdRingPush t key = t ↔ r.contents.length = 15 := by
  have hcontents := r.contents_push key
  have hlen := r.contents_length_le
  have hfull : nextEntry (readw t.mem 0x41C) = readw t.mem 0x41A ↔ r.tail + 1 = r.head := by
    rw [h.tail, h.head, nextEntry_offset, offset_inj]
  by_cases hlast : r.tail + 1 = r.head
  · rw [Ring.push, if_pos hlast] at hcontents
    have hdrop := (put_eq_self_iff 15 r.contents key).mp hcontents.symm
    rw [kbdRingPush, if_pos (hfull.mpr hlast)]
    exact iff_of_true rfl (by omega)
  · have hstored : kbdRingPush t key ≠ t := fun he => by
      rw [kbdRingPush, if_neg (fun hf => hlast (hfull.mp hf))] at he
      simpa using congrArg (List.length ∘ Traced.written) he
    have hcount : r.contents.length + 1 < 16 := by
      have hsucc := dist_succ hlast
      have hlt := (r.tail + 1 - r.head).isLt
      rw [r.contents_length, Ring.count]
      omega
    exact iff_of_false hstored (by omega)

end Stores

/-! ### Runs -/

section Runs

variable {t t' : Traced} {r : Ring 15 UInt16} {es : List RingEvent}

/-- A step of the ring is a step of the queue, or none. -/
theorem ringStep_refines {e : RingEvent} (h : KeepsRing t.mem r) (hstep : ringStep t e t') :
    ∃ r' : Ring 15 UInt16, KeepsRing t'.mem r' ∧ Run (Step 15) r.contents (ringCalls [e]) r'.contents := by
  cases e with
  | elsewhere => exact ⟨r, h.congr hstep.2, .nil _⟩
  | call c =>
    cases c with
    | push key =>
      cases hstep
      refine ⟨r.push key, kbdRingPush_keeps h key, .single ?_⟩
      rw [r.contents_push]
      exact .push _ key
    | peek k =>
      obtain ⟨rfl, rfl⟩ := hstep
      refine ⟨r, h, .single ?_⟩
      rw [kbdRingPeek_eq h, r.peek_eq]
      exact .peek _
    | pop k =>
      obtain ⟨rfl, rfl⟩ := hstep
      refine ⟨r.pop, kbdRingPop_keeps h, .single ?_⟩
      rw [kbdRingPop_fst, kbdRingPeek_eq h, r.peek_eq, r.contents_pop]
      exact .pop _

theorem ringRun_refines (hrun : Run ringStep t es t') :
    ∀ {r : Ring 15 UInt16}, KeepsRing t.mem r →
      ∃ r' : Ring 15 UInt16, KeepsRing t'.mem r' ∧ Run (Step 15) r.contents (ringCalls es) r'.contents := by
  induction hrun with
  | nil t => exact fun h => ⟨_, h, .nil _⟩
  | @cons _ _ _ e es hstep _ ih =>
    intro r h
    obtain ⟨r₁, h₁, hrun₁⟩ := ringStep_refines h hstep
    obtain ⟨r₂, h₂, hrun₂⟩ := ih h₁
    have hcalls : ringCalls (e :: es) = ringCalls [e] ++ ringCalls es := by
      rw [ringCalls, ringCalls, ringCalls, ← List.filterMap_append, List.singleton_append]
    exact ⟨r₂, h₂, hcalls ▸ hrun₁.append hrun₂⟩

theorem ringStep_written {e : RingEvent} (h : KeepsRing t.mem r) (hstep : ringStep t e t')
    (ht : ∀ a ∈ t.written, a ∈ ringArea) : ∀ a ∈ t'.written, a ∈ ringArea := by
  cases e with
  | elsewhere => rwa [hstep.1]
  | call c =>
    cases c with
    | push key =>
      cases hstep
      exact (kbdRingPush_writes h key).written ht
    | peek k => rwa [hstep.2]
    | pop k =>
      rw [hstep.2]
      exact (kbdRingPop_writes t).written ht

/-- The run invariant: memory holds a ring, and the stores were in its area. -/
def RingOk (t : Traced) : Prop := (∃ r, KeepsRing t.mem r) ∧ ∀ a ∈ t.written, a ∈ ringArea

theorem ringStep_ok {e : RingEvent} (h : RingOk t) (hstep : ringStep t e t') : RingOk t' := by
  obtain ⟨⟨r, hr⟩, hwritten⟩ := h
  obtain ⟨r', hr', -⟩ := ringStep_refines hr hstep
  exact ⟨⟨r', hr'⟩, ringStep_written hr hstep hwritten⟩

/-- **The keyboard ring is a queue of 15 keys.**  In every state reached since the ring was made, its contents are
    those of a queue that saw the same calls: the keys taken out and the keys still there are the keys accepted, in
    order; a push is dropped exactly when 15 keys are queued; what a peek shows is what the next pop takes; head and
    tail are offsets of entries; and no store was outside the ring. -/
theorem kbdRing_fifo {m : Mem} (hrun : Run ringStep (kbdRingInit (.start m)) es t) :
    (∃ r : Ring 15 UInt16, KeepsRing t.mem r ∧ Run (Step 15) [] (ringCalls es) r.contents ∧
      popped (ringCalls es) ++ r.contents = accepted 15 [] (ringCalls es) ∧
      ∀ key, kbdRingPush t key = t ↔ r.contents.length = 15) ∧
    (kbdRingPop t).1 = kbdRingPeek t ∧
    (∀ es₁ es₂ es₃ a k, ringCalls es = es₁ ++ .peek (some a) :: (es₂ ++ .pop k :: es₃) →
      (∀ k', Call.pop k' ∉ es₂) → k = some a) ∧
    EntryOffset (readw t.mem 0x41A) ∧ EntryOffset (readw t.mem 0x41C) ∧
    ∀ a ∈ t.written, 0x41A ≤ a ∧ a ≤ 0x43D := by
  obtain ⟨r₀, hr₀, hempty⟩ := kbdRingInit_keeps (.start m)
  obtain ⟨r, hr, hqueue⟩ := ringRun_refines hrun hr₀
  rw [hempty] at hqueue
  have hinit : RingOk (kbdRingInit (.start m)) :=
    ⟨⟨r₀, hr₀⟩, (kbdRingInit_writes (.start m)).written fun a ha => absurd ha List.not_mem_nil⟩
  have hok : RingOk t := hrun.invariant (fun _ _ _ h hstep => ringStep_ok h hstep) hinit
  refine ⟨⟨r, hr, hqueue, (run_conserves hqueue).symm, kbdRingPush_dropped hr⟩, kbdRingPop_fst t, ?_, ?_, ?_, ?_⟩
  · intro es₁ es₂ es₃ a k hcalls hpops
    rw [hcalls] at hqueue
    exact peeked_popped hqueue hpops
  · exact hr.head ▸ offset_ok r.head
  · exact hr.tail ▸ offset_ok r.tail
  · intro a ha
    have harea := hok.2 a ha
    exact ⟨harea.1, Nat.le_of_lt_succ harea.2⟩

/-- The ring with two keys in it. -/
def twoKeys : Traced := kbdRingPush (kbdRingPush (kbdRingInit (.start fun _ => 0)) 0x1E61) 0x1C0D

theorem kbdRing_fifo_two : (kbdRingPop (kbdRingPop twoKeys).2).1 = kbdRingPeek (kbdRingPop twoKeys).2 ∧
    EntryOffset (readw (kbdRingPop twoKeys).2.mem 0x41A) ∧ kbdRingPeek (kbdRingPop twoKeys).2 = some 0x1C0D := by
  have hrun : Run ringStep (kbdRingInit (.start fun _ => 0))
      [.call (.push 0x1E61), .call (.push 0x1C0D), .call (.peek (some 0x1E61)), .call (.pop (some 0x1E61))]
      (kbdRingPop twoKeys).2 :=
    .cons rfl (.cons rfl (.cons ⟨by decide +kernel, rfl⟩ (.cons ⟨by decide +kernel, rfl⟩ (.nil _))))
  have hfifo := kbdRing_fifo hrun
  exact ⟨hfifo.2.1, hfifo.2.2.2.1, by decide +kernel⟩

end Runs

end Dosiz.KeyRing
