/-
  Dosiz/EmsDirectory.lean
  =======================
  **The directory of the expanded memory** (INT 67h AH=42, 4B, 4C and 4D of `bridge.cc`).

  A program that looks for memory asks for the handles in use, for the pages of each of them, for the table
  of all of them and for the pages that are free.  Each answer is computed from another part of
  the state: the map of handles or the bitmap of the pool.  `emsDirectory_exact`: in every state a run from a
  reset can reach the answers fit together, and the counts of the table and the free pages make 512.
-/
import Dosiz.EmsPages
import Dosiz.Int31

namespace Dosiz.Ems

open ByteMemory Machine Transition

/-! ### The calls -/

/-- The live handles with their numbers of pages, in the order of `s_ems_handles`. -/
def directory (e : Ems) : List (Nat × Nat) :=
  (e.handles.entries.map fun x => (x.1, x.2.pages.length)).insertionSort fun a b => a.1 ≤ b.1

/-- AH=4B: the number of handles. -/
def int67_4B (m : Machine) : Machine := (m.setR8h .eax 0).setR16 .ebx m.ems.handles.entries.length

/-- AH=4C: the pages of handle DX. -/
def int67_4C (m : Machine) : Machine :=
  match m.ems.handles.lookup m.dx with
  | none => m.setR8h .eax 0x83
  | some H => (m.setR16 .ebx H.pages.length).setR8h .eax 0

def directoryBuffer (m : Machine) : Nat := m.segPhys .es + m.di

/-- AH=4D: the handles and their pages, to the table at ES:DI. -/
def int67_4D (m : Machine) : Machine :=
  let n := (directory m.ems).length
  ((m.setMem (putWords m.mem (directoryBuffer m) ((directory m.ems).flatMap fun x => [x.1, x.2]))).setR16 .ebx
    n).setR8h .eax 0

/-! ### Words in memory -/

/-- The words from `a` on are `ws`. -/
def WordsAt (mem : Mem) (a : Nat) (ws : List Nat) : Prop :=
  ∀ i w, ws[i]? = some w → readw mem (lin (a + 2 * i)) = w

section Words

variable {mem : Mem} {a : Nat} {ws : List Nat}

/-- Words that come behind do not touch the one at `a`. -/
theorem readw_putWords_before {d : Nat} (hd : 2 ≤ d) (hfit : d + 2 * ws.length ≤ 4294967296) :
    readw (putWords mem (a + d) ws) (lin a) = readw mem (lin a) := by
  induction ws generalizing mem d with
  | nil => rfl
  | cons w ws ih =>
    rw [List.length_cons] at hfit
    rw [putWords, Nat.add_assoc, ih (by omega) (by omega)]
    apply readw_writew_of_disjoint
    simp only [lin]
    omega

theorem wordsAt_putWords (hws : ∀ w ∈ ws, w < 65536) (hfit : 2 * ws.length ≤ 4294967296) :
    WordsAt (putWords mem a ws) a ws := by
  induction ws generalizing mem a with
  | nil =>
    intro i w hi
    cases hi
  | cons v ws ih =>
    rw [List.length_cons] at hfit
    rw [List.forall_mem_cons] at hws
    intro i w hi
    cases i with
    | zero =>
      obtain rfl : v = w := Option.some.inj hi
      rw [putWords]
      show readw (putWords (writew mem (lin a) v) (a + 2) ws) (lin a) = v
      rw [readw_putWords_before (le_refl 2) (by omega), readw_writew, Nat.mod_eq_of_lt hws.1]
    | succ i =>
      have hi' : ws[i]? = some w := hi
      rw [Nat.mul_succ, Nat.add_comm (2 * i) 2, ← Nat.add_assoc]
      exact ih hws.2 (by omega) i w hi'

end Words

/-! ### The table -/

section Directory

variable {e : Ems} {m : Machine} {k : Nat}

theorem directory_perm (e : Ems) :
    (directory e).Perm (e.handles.entries.map fun x => (x.1, x.2.pages.length)) := List.perm_insertionSort _ _

/-- A handle is in the table once, with its pages. -/
theorem mem_directory_iff (e : Ems) (h n : Nat) :
    (h, n) ∈ directory e ↔ ∃ H, e.handles.lookup h = some H ∧ H.pages.length = n := by
  rw [(directory_perm e).mem_iff, List.mem_map]
  constructor
  · rintro ⟨⟨h', H⟩, hmem, heq⟩
    cases heq
    exact ⟨H, AList.mem_lookup_iff.mpr hmem, rfl⟩
  · rintro ⟨H, hH, rfl⟩
    exact ⟨⟨h, H⟩, AList.mem_lookup_iff.mp hH, rfl⟩

theorem directory_keys (e : Ems) : ((directory e).map Prod.fst).Perm (e.handles.entries.map Sigma.fst) := by
  have hmap := (directory_perm e).map Prod.fst
  rwa [List.map_map] at hmap

theorem directory_sorted (e : Ems) : (directory e).Pairwise fun a b => a.1 < b.1 := by
  have htotal : Std.Total (fun a b : Nat × Nat => a.1 ≤ b.1) := ⟨fun a b => Nat.le_total _ _⟩
  have htrans : IsTrans (Nat × Nat) (fun a b => a.1 ≤ b.1) := ⟨fun a b c h₁ h₂ => Nat.le_trans h₁ h₂⟩
  have hle : (directory e).Pairwise fun a b => a.1 ≤ b.1 := List.pairwise_insertionSort _ _
  have hne : (directory e).Pairwise fun a b => a.1 ≠ b.1 := by
    have hnodup : ((directory e).map Prod.fst).Nodup := (directory_keys e).nodup_iff.mpr e.handles.nodupKeys
    exact List.pairwise_map.mp hnodup
  exact (hle.and hne).imp fun h => lt_of_le_of_ne h.1 h.2

/-- The counts of the table are those of the lists of pages. -/
theorem directory_sum (e : Ems) : ((directory e).map Prod.snd).sum = (allPages e).length := by
  have hsum := ((directory_perm e).map Prod.snd).sum_nat
  rw [hsum, List.map_map, allPages, pagesOf, List.length_flatMap]
  rfl

end Directory

theorem flatMap_pair_length (t : List (Nat × Nat)) : (t.flatMap fun x => [x.1, x.2]).length = 2 * t.length := by
  induction t with
  | nil => rfl
  | cons x t ih =>
    rw [List.flatMap_cons, List.length_append, ih]
    show 2 + 2 * t.length = 2 * (t.length + 1)
    omega

/-! ### Every state of a run -/

section Runs

variable {m m' : Machine} {k : Nat} {es : List EmsEvent}

theorem ledger_run (h : Ledger k m) (hrun : Run emsStep m es m') (hk : k + allocations m es ≤ 65534) :
    Ledger (k + allocations m es) m' := by
  induction hrun generalizing k with
  | nil m => exact h
  | cons hstep _ ih =>
    obtain rfl := hstep
    rw [allocations] at hk ⊢
    rcases ledger_next h (by omega) _ with ⟨ha, -, hnext⟩ | ⟨ha, -, hnext⟩
    · rw [ha, if_pos rfl] at hk ⊢
      rw [← Nat.add_assoc] at hk ⊢
      exact ih (hnext (by omega)) hk
    · rw [ha, if_neg (by decide), Nat.zero_add] at hk ⊢
      exact ih hnext hk

theorem Ledger.pages_le (h : Ledger k m) : (allPages m.ems).length ≤ EMS_TOTAL_PAGES := h.pages.sound.free.2

/-- The numbers and the counts are words. -/
theorem Ledger.words (h : Ledger k m) (hk : k ≤ 65534) : ∀ x ∈ directory m.ems, x.1 < 65536 ∧ x.2 ≤ 512 := by
  rintro ⟨a, n⟩ hx
  obtain ⟨H, hH, rfl⟩ := (mem_directory_iff m.ems a n).mp hx
  have hlive := (h.live a H hH).2
  obtain ⟨others, hall, -⟩ := allPages_split hH
  have hlen := hall.length_eq
  have hle := h.pages_le
  rw [List.length_append] at hlen
  rw [EMS_TOTAL_PAGES] at hle
  exact ⟨by omega, by dsimp only; omega⟩

/-- There are no more handles than numbers given. -/
theorem Ledger.directory_length (h : Ledger k m) : (directory m.ems).length ≤ k := by
  have hnodup : ((directory m.ems).map Prod.fst).Nodup := (directory_keys m.ems).nodup_iff.mpr m.ems.handles.nodupKeys
  have hsub : (directory m.ems).map Prod.fst ⊆ List.range' 1 k := by
    intro a ha
    obtain ⟨⟨b, n⟩, hmem, rfl⟩ := List.mem_map.mp ha
    obtain ⟨H, hH, -⟩ := (mem_directory_iff m.ems b n).mp hmem
    have hlive := h.live b H hH
    exact List.mem_range'_1.mpr ⟨hlive.1, by dsimp only; omega⟩
  have hle := List.Nodup.length_le_of_subset hnodup hsub
  rwa [List.length_map, List.length_range'] at hle

theorem int67_4C_iff (h : Ledger k m) (hk : k ≤ 65534) {a : Nat} (ha : a < 65536) (n : Nat) :
    (a, n) ∈ directory m.ems ↔
      (int67_4C (m.setR16 .edx a)).r8h .eax = 0 ∧ (int67_4C (m.setR16 .edx a)).bx = n := by
  have hdx : (m.setR16 .edx a).dx = a := (r16_setR16 m .edx a).trans (Nat.mod_eq_of_lt ha)
  rw [mem_directory_iff, int67_4C, hdx]
  have hems : (m.setR16 .edx a).ems = m.ems := rfl
  rw [hems]
  cases hH : m.ems.handles.lookup a with
  | none =>
    constructor
    · rintro ⟨H, hsome, -⟩
      cases hsome
    · rintro ⟨hah, -⟩
      dsimp only at hah
      rw [r8h_setR8h] at hah
      cases hah
  | some H =>
    have hlen : H.pages.length < 65536 := by
      have hword := h.words hk (a, H.pages.length) ((mem_directory_iff m.ems a _).mpr ⟨H, hH, rfl⟩)
      exact Nat.lt_of_le_of_lt hword.2 (by decide)
    dsimp only
    rw [r8h_setR8h, bx, r16_setR8h_of_ne _ _ (by decide), r16_setR16, Nat.mod_eq_of_lt hlen]
    constructor
    · rintro ⟨H', hsome, hn⟩
      cases hsome
      exact ⟨rfl, hn⟩
    · rintro ⟨-, hn⟩
      exact ⟨H, rfl, hn⟩

/-- **The directory.**  In every state that a run from a reset reaches with at most 65534 allocations: the
    table of AH=4D has the live handles in ascending order, AH=4B counts them, AH=4C answers for each with the
    count of its entry and refuses every other number, and the counts and AH=42's free pages make 512. -/
theorem emsDirectory_exact (h : EmsReset m) (hn : allocations m es ≤ 65534) (hrun : Run emsStep m es m') :
    let t := directory m'.ems
    (WordsAt (int67_4D m').mem (directoryBuffer m') (t.flatMap fun x => [x.1, x.2]) ∧
        (int67_4D m').bx = t.length) ∧
      (int67_4B m').bx = t.length ∧ (t.Pairwise fun x y => x.1 < y.1) ∧
      (∀ a < 65536, ∀ n, (a, n) ∈ t ↔
        (int67_4C (m'.setR16 .edx a)).r8h .eax = 0 ∧ (int67_4C (m'.setR16 .edx a)).bx = n) ∧
      (t.map Prod.snd).sum + (int67_42 m').bx = 512 := by
  have hledger := ledger_run h.ledger hrun (by omega)
  rw [Nat.zero_add] at hledger
  have hlen : (directory m'.ems).length < 65536 := by
    have hle := hledger.directory_length
    omega
  have hwords : ∀ w ∈ (directory m'.ems).flatMap fun x => [x.1, x.2], w < 65536 := by
    intro w hw
    obtain ⟨x, hx, hmem⟩ := List.mem_flatMap.mp hw
    have hword := hledger.words hn x hx
    simp only [List.mem_cons, List.not_mem_nil, or_false] at hmem
    omega
  have hfit : 2 * ((directory m'.ems).flatMap fun x => [x.1, x.2]).length ≤ 4294967296 := by
    rw [flatMap_pair_length]
    omega
  refine ⟨⟨wordsAt_putWords hwords hfit, ?_⟩, ?_, directory_sorted m'.ems, fun a ha n => int67_4C_iff hledger hn ha n,
    ?_⟩
  · rw [int67_4D, bx, r16_setR8h_of_ne _ _ (by decide), r16_setR16, Nat.mod_eq_of_lt hlen]
  · have hentries : (directory m'.ems).length = m'.ems.handles.entries.length := by
      rw [(directory_perm m'.ems).length_eq, List.length_map]
    rw [int67_4B, bx, r16_setR16, ← hentries, Nat.mod_eq_of_lt hlen]
  · have hfree := hledger.pages.sound.free
    rw [directory_sum, hfree.1]
    rw [EMS_TOTAL_PAGES] at hfree ⊢
    omega

end Runs

theorem emsDirectory_exact_mapped : ∃ m', Run emsStep bootMachine mappedEvents m' ∧
    ((directory m'.ems).map Prod.snd).sum + (int67_42 m').bx = 512 := by
  have hrun : ∀ (es : List EmsEvent) (m : Machine), ∃ m', Run emsStep m es m' := by
    intro es
    induction es with
    | nil => exact fun m => ⟨m, .nil m⟩
    | cons e es ih =>
      intro m
      obtain ⟨m', hm'⟩ := ih (e.next m)
      exact ⟨m', .cons rfl hm'⟩
  obtain ⟨m', hm'⟩ := hrun mappedEvents bootMachine
  have hn : allocations bootMachine mappedEvents ≤ 65534 := by decide +kernel
  exact ⟨m', hm', (emsDirectory_exact emsReset_boot hn hm').2.2.2.2⟩

end Dosiz.Ems
