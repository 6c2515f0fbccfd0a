/-
  Dosiz/ChildEnv.lean
  ===================
  **The environment of a child program** (the middle of INT 21h AH=4B in `bridge.cc`).

  AH=4B copies the 2 KB at the environment segment it takes for the parent's, looks for the
  first double NUL in the copy and writes the count and the child's path behind it.
  `putArgv0_block_iff` says when the outcome is the block of given variables; for the programs of
  a nest of AH=4B calls, `childEnv_right_iff` compares it with the environment asked for: that
  of the parameter block, or the caller's own.
-/
import Dosiz.ChildExit
import Dosiz.EnvBlock
import Dosiz.Startup

namespace Dosiz.ChildEnv

open ByteMemory Machine EnvBlock Transition

/-! ### Copying upwards -/

theorem copyUp_off (mem : Mem) (dst src n : Nat) :
    AgreesOff (Set.Ico dst (dst + n)) mem (copyUp mem dst src n) := by
  induction n with
  | zero => exact AgreesOff.refl _ _
  | succ n ih =>
    rw [copyUp]
    refine (ih.mono fun x hx => ?_).trans ((writeb_off _ _ _).mono fun x hx => ?_)
    · exact ⟨hx.1, Nat.lt_succ_of_lt hx.2⟩
    · exact ⟨(Nat.le_add_right dst n).trans hx.1, hx.2⟩

/-- A copy that does not start inside its source comes out whole. -/
theorem readb_copyUp (mem : Mem) {dst src : Nat} : ∀ {n : Nat}, dst ≤ src ∨ src + n ≤ dst →
    ∀ {i : Nat}, i < n → readb (copyUp mem dst src n) (dst + i) = readb mem (src + i)
  | 0, _, _, hi => absurd hi (Nat.not_lt_zero _)
  | n + 1, h, i, hi => by
    rw [copyUp]
    rcases Nat.lt_succ_iff_lt_or_eq.mp hi with hlt | rfl
    · rw [readb_writeb_of_ne (by omega)]
      exact readb_copyUp mem (by omega) hlt
    · have hsrc : src + i ∉ Set.Ico dst (dst + i) := by
        intro hx
        have h₁ := hx.1
        have h₂ := hx.2
        omega
      rw [readb_writeb, (copyUp_off mem dst src i).readb hsrc]
      exact Nat.mod_eq_of_lt (readb_lt _ _)

/-! ### Double NULs -/

/-- Two NULs in a row. -/
def Double (mem : Mem) (a : Nat) : Prop := readb mem a = 0 ∧ readb mem (a + 1) = 0

/-- A list without two NULs in a row. -/
def Single (l : List Nat) : Prop := List.IsChain (fun a b => a = 0 → b ≠ 0) l

theorem single_cstr_append {s l : List Nat} (hs : CStr s) (hl : Single l) : Single (s ++ l) := by
  induction s with
  | nil => exact hl
  | cons c s ih =>
    have htail := ih fun d hd => hs d (List.mem_cons_of_mem c hd)
    refine htail.cons fun d _ hz => ?_
    exact absurd hz (hs c List.mem_cons_self).1.ne'

/-- A NUL in front of a string that is not empty. -/
theorem single_zero_cons {s l : List Nat} (hne : s ≠ []) (hs : CStr s) (hl : Single l) :
    Single (0 :: (s ++ l)) := by
  refine (single_cstr_append hs hl).cons fun d hd _ => ?_
  obtain ⟨c, s, rfl⟩ := List.exists_cons_of_ne_nil hne
  obtain rfl : c = d := Option.some.inj hd
  exact (hs c List.mem_cons_self).1.ne'

theorem single_strings : ∀ {ss : List (List Nat)}, (∀ s ∈ ss, s ≠ [] ∧ CStr s) →
    Single (0 :: strings ss)
  | [], _ => List.isChain_singleton 0
  | s :: ss, h => by
    obtain ⟨hne, hs⟩ := h s List.mem_cons_self
    have hrest := single_strings fun s hs => h s (List.mem_cons_of_mem _ hs)
    have hcons : strings (s :: ss) = s ++ 0 :: strings ss := by
      simp only [strings, List.flatMap_cons, List.append_assoc, List.cons_append, List.nil_append]
    rw [hcons]
    exact single_zero_cons hne hs hrest

/-- The scan stops behind the first double NUL, or at the last byte. -/
theorem envEnd_spec (mem : Mem) (base : Nat) : ∀ n i, ENV_BYTES - 1 - i ≤ n → i ≤ ENV_BYTES - 1 →
    (∃ j, i ≤ j ∧ j + 1 < ENV_BYTES ∧ Double mem (base + j) ∧
      (∀ k, i ≤ k → k < j → ¬ Double mem (base + k)) ∧ envEnd mem base n i = j + 2) ∨
    (∀ k, i ≤ k → k + 1 < ENV_BYTES → ¬ Double mem (base + k)) ∧
      envEnd mem base n i = ENV_BYTES - 1 := by
  intro n
  induction n with
  | zero =>
    intro i hn hi
    right
    have hlast : i = ENV_BYTES - 1 := Nat.le_antisymm hi (Nat.le_of_sub_eq_zero (Nat.le_zero.mp hn))
    refine ⟨fun k hk hk' => ?_, hlast⟩
    omega
  | succ n ih =>
    intro i hn hi
    rw [envEnd]
    by_cases hlt : i + 1 < ENV_BYTES
    · rw [if_pos hlt]
      by_cases hd : readb mem (base + i) = 0 ∧ readb mem (base + i + 1) = 0
      · left
        rw [if_pos hd]
        exact ⟨i, le_refl i, hlt, hd, fun k hk hk' => absurd hk (Nat.not_le.mpr hk'), rfl⟩
      · rw [if_neg hd]
        have hskip : ∀ k, i ≤ k → (i + 1 ≤ k → ¬ Double mem (base + k)) → ¬ Double mem (base + k) := by
          intro k hk hlater
          rcases Nat.eq_or_lt_of_le hk with rfl | hgt
          · exact hd
          · exact hlater hgt
        rcases ih (i + 1) (by omega) (by omega) with ⟨j, hj, hjlt, hdj, hbefore, heq⟩ | ⟨hnone, heq⟩
        · left
          refine ⟨j, (Nat.le_succ i).trans hj, hjlt, hdj, fun k hk hkj => ?_, heq⟩
          exact hskip k hk fun hk' => hbefore k hk' hkj
        · right
          exact ⟨fun k hk hk' => hskip k hk fun hle => hnone k hle hk', heq⟩
    · right
      rw [if_neg hlt]
      exact ⟨fun k hk hk' => absurd hk' (by omega), by omega⟩

/-! ### The block of the child -/

/-- Where the count is written. -/
def countAt (mem : Mem) (base : Nat) : Nat := envEnd mem base ENV_BYTES 0

theorem countAt_cases (mem : Mem) (base : Nat) :
    (∃ j, j + 1 < ENV_BYTES ∧ Double mem (base + j) ∧ (∀ k < j, ¬ Double mem (base + k)) ∧
      countAt mem base = j + 2) ∨
    (∀ k, k + 1 < ENV_BYTES → ¬ Double mem (base + k)) ∧ countAt mem base = ENV_BYTES - 1 := by
  rcases envEnd_spec mem base ENV_BYTES 0 (by decide) (by decide) with
    ⟨j, -, hlt, hd, hbefore, heq⟩ | ⟨hnone, heq⟩
  · left
    exact ⟨j, hlt, hd, fun k => hbefore k (Nat.zero_le k), heq⟩
  · right
    exact ⟨fun k => hnone k (Nat.zero_le k), heq⟩

/-- Nothing before the count is written. -/
theorem putArgv0_off (mem : Mem) (base : Nat) (path : List Nat) :
    AgreesOff (Set.Ici (base + countAt mem base)) mem (putArgv0 mem base path) := by
  have hwrite : ∀ (q : Mem) a v, base + countAt mem base ≤ a →
      AgreesOff (Set.Ici (base + countAt mem base)) q (writeb q a v) := by
    intro q a v ha
    exact (writeb_off q a v).mono fun x hx => ha.trans hx.1
  unfold putArgv0
  rw [← countAt]
  dsimp only
  have hcount : AgreesOff (Set.Ici (base + countAt mem base)) mem
      (if countAt mem base + 2 ≤ ENV_BYTES then
        writeb (writeb mem (base + countAt mem base) 1) (base + countAt mem base + 1) 0 else mem) := by
    split
    · exact (hwrite _ _ _ le_rfl).trans (hwrite _ _ _ (Nat.le_succ _))
    · exact AgreesOff.refl _ _
  have hle : countAt mem base ≤
      (if countAt mem base + 2 ≤ ENV_BYTES then countAt mem base + 2 else countAt mem base) := by
    split
    · exact Nat.le_add_right _ _
    · exact le_refl _
  generalize (if countAt mem base + 2 ≤ ENV_BYTES then countAt mem base + 2 else countAt mem base) = i
    at hle ⊢
  have hpath := hcount.trans ((storeBytes_off _ (base + i) (path.take (ENV_BYTES - 1 - i))).mono
    fun x hx => (Nat.add_le_add_left hle base).trans hx.1)
  split
  · exact hpath.trans (hwrite _ _ _ (by omega))
  · exact hpath

theorem countAt_le (mem : Mem) (base : Nat) : countAt mem base ≤ ENV_BYTES := by
  rcases countAt_cases mem base with ⟨j, hj, -, -, heq⟩ | ⟨-, heq⟩
  · rw [heq]
    exact hj
  · rw [heq]
    exact Nat.sub_le _ _

/-- The count and the path end with the block's 2 KB. -/
theorem putArgv0_inside (mem : Mem) (base : Nat) (path : List Nat) :
    AgreesOff (Set.Ico base (base + ENV_BYTES)) mem (putArgv0 mem base path) := by
  have hbytes : ENV_BYTES = 0x800 := rfl
  have hcount := countAt_le mem base
  unfold putArgv0
  rw [← countAt]
  dsimp only
  have hwrite : ∀ (q : Mem) a v, a < ENV_BYTES →
      AgreesOff (Set.Ico base (base + ENV_BYTES)) q (writeb q (base + a) v) := by
    intro q a v ha
    exact (writeb_off q (base + a) v).mono fun x hx =>
      ⟨(Nat.le_add_right base a).trans hx.1, hx.2.trans_le (by omega)⟩
  have hstart : AgreesOff (Set.Ico base (base + ENV_BYTES)) mem
      (if countAt mem base + 2 ≤ ENV_BYTES then
        writeb (writeb mem (base + countAt mem base) 1) (base + countAt mem base + 1) 0 else mem) := by
    split
    · rw [Nat.add_assoc base]
      exact (hwrite _ _ _ (by omega)).trans (hwrite _ _ _ (by omega))
    · exact AgreesOff.refl _ _
  have hle : (if countAt mem base + 2 ≤ ENV_BYTES then countAt mem base + 2 else countAt mem base) ≤
      ENV_BYTES := by
    split
    · assumption
    · exact hcount
  generalize (if countAt mem base + 2 ≤ ENV_BYTES then countAt mem base + 2 else countAt mem base) = i
    at hle ⊢
  have hshown : i + (path.take (ENV_BYTES - 1 - i)).length ≤ ENV_BYTES := by
    rw [List.length_take]
    omega
  have hpath := hstart.trans ((storeBytes_off _ (base + i) (path.take (ENV_BYTES - 1 - i))).mono
    (T := Set.Ico base (base + ENV_BYTES)) fun x hx =>
      ⟨(Nat.le_add_right base i).trans hx.1, hx.2.trans_le (by omega)⟩)
  split
  · rename_i hlast
    rw [Nat.add_assoc base i]
    exact hpath.trans (hwrite _ _ _ hlast)
  · exact hpath

/-- The count, the path and its NUL, where they fit. -/
theorem putArgv0_fits {mem : Mem} {base : Nat} {path : List Nat}
    (h : countAt mem base + 2 + path.length + 1 ≤ ENV_BYTES) :
    putArgv0 mem base path = storeBytes mem (base + countAt mem base) ([1, 0] ++ path ++ [0]) := by
  unfold putArgv0
  rw [← countAt]
  dsimp only
  have hcount : countAt mem base + 2 ≤ ENV_BYTES := by omega
  have htake : path.take (ENV_BYTES - 1 - (countAt mem base + 2)) = path :=
    List.take_of_length_le (by omega)
  simp only [if_pos hcount, htake]
  rw [if_pos (by omega), storeBytes_append, storeBytes_append, storeBytes_one]
  simp only [storeBytes, List.length_append, List.length_cons, List.length_nil, Nat.add_assoc,
    Nat.reduceAdd]

/-- What must stand at the source for the block of `ss` to come out: the variables with the extra
    NUL; without a variable there is no double NUL, and the whole block has to be there. -/
def core (ss : List (List Nat)) (path : List Nat) : List Nat :=
  if ss = [] then [0, 1, 0] ++ path else strings ss

section Block

variable {c : Mem} {base : Nat} {ss : List (List Nat)} {path : List Nat}

theorem core_single (hss : ∀ s ∈ ss, s ≠ [] ∧ CStr s) (hpath : CStr path) (hne : path ≠ []) :
    Single (core ss path) := by
  unfold core
  split
  · have hzero := single_zero_cons hne hpath (l := []) List.isChain_nil
    rw [List.append_nil] at hzero
    have hone : Single (1 :: 0 :: path) := hzero.cons fun d _ h => by cases h
    refine hone.cons fun d hd _ => ?_
    obtain rfl : 1 = d := Option.some.inj hd
    decide
  · exact (single_strings hss).tail

/-- The core and a NUL begin the block. -/
theorem encode_starts (ss : List (List Nat)) (path : List Nat) : core ss path ++ [0] <+: encode ss path := by
  unfold core encode
  split
  · rename_i hnil
    rw [hnil]
    exact List.prefix_refl _
  · refine ⟨[1, 0] ++ path ++ [0], ?_⟩
    simp only [List.append_assoc, List.cons_append, List.nil_append]

theorem core_length (hne : path.length + 5 ≤ ENV_BYTES) (hfit : (encode ss path).length ≤ ENV_BYTES) :
    (core ss path).length + 1 ≤ ENV_BYTES - 1 := by
  unfold core
  split
  · simp only [List.length_append, List.length_cons, List.length_nil]
    omega
  · simp only [encode, List.length_append, List.length_cons, List.length_nil] at hfit
    omega

/-- Some variables end with a NUL. -/
theorem strings_concat (hne : ss ≠ []) : ∃ t, strings ss = t ++ [0] := by
  obtain ⟨ss', s, rfl⟩ := List.eq_nil_or_concat' ss |>.resolve_left hne
  refine ⟨strings ss' ++ s, ?_⟩
  simp only [strings, List.flatMap_append, List.flatMap_cons, List.flatMap_nil, List.append_nil,
    List.append_assoc]

/-- A scan of bytes that are those of the core does not stop before its end. -/
theorem core_le_countAt (hone : Single (core ss path)) (hlen : (core ss path).length + 1 ≤ ENV_BYTES - 1)
    (hc : ∀ i, (h : i < (core ss path).length) → i < countAt c base →
      readb c (base + i) = (core ss path)[i]) : (core ss path).length + 1 ≤ countAt c base := by
  rcases countAt_cases c base with ⟨j, -, hd, -, heq⟩ | ⟨-, heq⟩
  · by_contra hlt
    have hj : j + 1 < (core ss path).length := by omega
    have h₀ := hc j (by omega) (by omega)
    have h₁ := hc (j + 1) hj (by omega)
    have hchain := List.isChain_iff_getElem.mp hone j hj
    exact hchain (h₀.symm.trans hd.1) (h₁.symm.trans hd.2)
  · omega

theorem bytesAt_prefix {l l' : List Nat} {mem : Mem} {a : Nat} (h : BytesAt mem a l') (hp : l <+: l') :
    BytesAt mem a l := by
  obtain ⟨t, rfl⟩ := hp
  intro i hi
  rw [h i (by rw [List.length_append]; omega), List.getElem_append_left hi]

/-- **The block of a child.**  It comes out right exactly where the copy holds the variables, of which
    there is one at least, or the whole block already. -/
theorem putArgv0_block_iff (hss : ∀ s ∈ ss, s ≠ [] ∧ CStr s) (hpath : CStr path) (hne : path ≠ [])
    (hshort : path.length + 5 ≤ ENV_BYTES) (hfit : (encode ss path).length ≤ ENV_BYTES) :
    BytesAt (putArgv0 c base path) base (encode ss path) ↔ BytesAt c base (core ss path ++ [0]) := by
  have hone := core_single hss hpath hne
  have hlen := core_length hshort hfit
  have hkeep : ∀ i < countAt c base, readb (putArgv0 c base path) (base + i) = readb c (base + i) := by
    intro i hi
    refine (putArgv0_off c base path).readb fun hx => ?_
    have := Set.mem_Ici.mp hx
    omega
  constructor
  · intro hout
    have hout' := bytesAt_prefix hout (encode_starts ss path)
    have hle : (core ss path).length + 1 ≤ countAt c base := by
      refine core_le_countAt hone hlen fun i hi hlt => ?_
      rw [← hkeep i hlt, hout' i (by rw [List.length_append]; omega), List.getElem_append_left hi]
    intro i hi
    rw [List.length_append, List.length_singleton] at hi
    rw [← hkeep i (by omega)]
    exact hout' i _
  · intro hin
    have hle : (core ss path).length + 1 ≤ countAt c base := by
      refine core_le_countAt hone hlen fun i hi _ => ?_
      rw [hin i (by rw [List.length_append]; omega), List.getElem_append_left hi]
    by_cases hnil : ss = []
    · -- the whole block is below the count
      have hall : encode ss path = core ss path ++ [0] := by
        rw [core, if_pos hnil, hnil]
        rfl
      rw [hall]
      intro i hi
      rw [hkeep i (by rw [List.length_append, List.length_singleton] at hi; omega)]
      exact hin i hi
    · have hcore : core ss path = strings ss := if_neg hnil
      rw [hcore] at hin hle hone hlen
      -- the last variable's NUL and the extra one
      obtain ⟨t, ht⟩ := strings_concat hnil
      have hk : (strings ss).length = t.length + 1 := by
        rw [ht, List.length_append, List.length_singleton]
      have hlast : Double c (base + t.length) := by
        have hin' := hin
        rw [ht] at hin'
        constructor
        · rw [hin' t.length (by simp)]
          simp
        · rw [Nat.add_assoc, hin' (t.length + 1) (by simp)]
          simp
      have hend : countAt c base = (strings ss).length + 1 := by
        rcases countAt_cases c base with ⟨j, -, -, hbefore, heq⟩ | ⟨hnone, -⟩
        · have : ¬ t.length < j := fun hkj => hbefore t.length hkj hlast
          omega
        · exact absurd hlast (hnone t.length (by omega))
      have hsplit : encode ss path = (strings ss ++ [0]) ++ ([1, 0] ++ path ++ [0]) := by
        simp only [encode, List.append_assoc, List.cons_append, List.nil_append]
      have hlt : ∀ d ∈ [1, 0] ++ path ++ [0], d < 256 := by
        intro d hd
        simp only [List.cons_append, List.nil_append, List.mem_cons, List.mem_append, List.not_mem_nil,
          or_false] at hd
        rcases hd with rfl | rfl | hd | rfl
        · decide
        · decide
        · exact (hpath d hd).2
        · decide
      have hroom : countAt c base + 2 + path.length + 1 ≤ ENV_BYTES := by
        rw [hsplit] at hfit
        simp only [List.length_append, List.length_cons, List.length_nil] at hfit
        omega
      rw [putArgv0_fits hroom, hsplit]
      intro i hi
      by_cases hlow : i < (strings ss ++ [0]).length
      · have hoff : base + i ∉ Set.Ico (base + countAt c base)
            (base + countAt c base + ([1, 0] ++ path ++ [0]).length) := by
          intro hx
          have := hx.1
          rw [List.length_append, List.length_singleton] at hlow
          omega
        rw [(storeBytes_off _ _ _).readb hoff, List.getElem_append_left hlow]
        exact hin i hlow
      · obtain ⟨n, rfl⟩ := Nat.exists_eq_add_of_le (Nat.not_lt.mp hlow)
        have hn : n < ([1, 0] ++ path ++ [0]).length := by
          have hlen' : (strings ss ++ [0] ++ ([1, 0] ++ path ++ [0])).length =
              (strings ss ++ [0]).length + ([1, 0] ++ path ++ [0]).length := List.length_append
          exact Nat.lt_of_add_lt_add_left (hlen' ▸ hi)
        have hbase : base + ((strings ss ++ [0]).length + n) = base + countAt c base + n := by
          rw [hend, List.length_append, List.length_singleton]
          omega
        rw [hbase, bytesAt_storeBytes c _ hlt n hn]
        rw [List.getElem_append_right (Nat.le_add_right _ _)]
        simp only [Nat.add_sub_cancel_left]

end Block

/-! ### The child's PSP -/

/-- The PSP reaches as far as the command tail can take it. -/
def PSP_REACH : Nat := 0x181

theorem foldl_writeb_off (base n : Nat) : ∀ (ps : List (Nat × Nat)) (mem : Mem), (∀ p ∈ ps, p.1 < n) →
    AgreesOff (Set.Ico base (base + n)) mem (ps.foldl (fun mem p => writeb mem (base + p.1) p.2) mem)
  | [], mem, _ => AgreesOff.refl _ _
  | p :: ps, mem, h => by
    have hp := h p List.mem_cons_self
    refine AgreesOff.trans ((writeb_off mem (base + p.1) p.2).mono fun x hx => ?_)
      (foldl_writeb_off base n ps _ fun p hp => h p (List.mem_cons_of_mem _ hp))
    have h₁ := hx.1
    have h₂ := hx.2
    exact ⟨by omega, by omega⟩

theorem pspBytes_lt (psp env : Nat) : ∀ p ∈ pspBytes psp env, p.1 < 256 := by
  have hoffsets : ∀ o ∈ (pspBytes 0 0).map Prod.fst, o < 256 := by decide
  intro p hp
  have hp' : p.1 ∈ (pspBytes psp env).map Prod.fst := List.mem_map_of_mem hp
  exact hoffsets p.1 hp'

/-- The child's PSP up to the command tail. -/
def pspFixed (m : Machine) (psp env : Nat) : Mem :=
  (pspBytes psp env).foldl (fun mem p => writeb mem (psp * 16 + p.1) p.2)
    (fill (fill m.mem (psp * 16) 256 0) (psp * 16 + 0x18) 20 0xFF)

/-- The length of the command tail, as it is read for the child's PSP. -/
def tailLen (m : Machine) (psp env : Nat) : Nat :=
  let mem := pspFixed m psp env
  let pb := lin (m.segPhys .es + m.bx)
  readb mem (readw mem (lin (pb + 4)) * 16 + readw mem (lin (pb + 2)))

theorem pspFixed_off (m : Machine) (psp env : Nat) :
    AgreesOff (Set.Ico (psp * 16) (psp * 16 + 256)) m.mem (pspFixed m psp env) := by
  have hjft : Set.Ico (psp * 16 + 0x18) (psp * 16 + 0x18 + 20) ⊆ Set.Ico (psp * 16) (psp * 16 + 256) :=
    fun x hx => ⟨(Nat.le_add_right _ _).trans hx.1, hx.2.trans_le (by omega)⟩
  have hcleared := (fill_off m.mem (psp * 16) 256 0).trans
    ((fill_off (fill m.mem (psp * 16) 256 0) (psp * 16 + 0x18) 20 0xFF).mono hjft)
  exact hcleared.trans (foldl_writeb_off (psp * 16) 256 (pspBytes psp env) _ (pspBytes_lt psp env))

/-- The PSP ends with its 256 bytes, or with the CR behind the command tail. -/
theorem buildChildPsp_within (m : Machine) (psp env : Nat) {n : Nat} (hn : 256 ≤ n)
    (htail : 0x82 + tailLen m psp env ≤ n) :
    AgreesOff (Set.Ico (psp * 16) (psp * 16 + n)) m.mem (buildChildPsp m psp env) := by
  have hin : ∀ {a k : Nat}, psp * 16 ≤ a → a + k ≤ psp * 16 + n →
      Set.Ico a (a + k) ⊆ Set.Ico (psp * 16) (psp * 16 + n) := fun h₁ h₂ x hx =>
    ⟨h₁.trans hx.1, hx.2.trans_le h₂⟩
  have hbytes := (pspFixed_off m psp env).mono (hin le_rfl (by omega))
  unfold buildChildPsp
  unfold tailLen at htail
  dsimp only at htail ⊢
  rw [← pspFixed]
  generalize pspFixed m psp env = q at hbytes htail ⊢
  generalize readw q (lin (lin (m.segPhys .es + m.bx) + 4)) * 16 +
    readw q (lin (lin (m.segPhys .es + m.bx) + 2)) = tail at htail ⊢
  generalize readb q tail = len at htail ⊢
  refine ((hbytes.trans ((writeb_off _ _ _).mono (hin ?_ ?_))).trans
    ((copyUp_off _ _ _ _).mono (hin ?_ ?_))).trans ((writeb_off _ _ _).mono (hin ?_ ?_)) <;> omega

theorem buildChildPsp_off (m : Machine) (psp env : Nat) :
    AgreesOff (Set.Ico (psp * 16) (psp * 16 + PSP_REACH)) m.mem (buildChildPsp m psp env) := by
  have hlen : tailLen m psp env < 256 := readb_lt _ _
  refine buildChildPsp_within m psp env (by decide) ?_
  simp only [PSP_REACH]
  omega

/-- The environment the child's PSP names. -/
theorem buildChildPsp_env (m : Machine) (psp : Nat) {env : Nat} (henv : env < 65536) :
    readw (buildChildPsp m psp env) (psp * 16 + 0x2C) = env := by
  unfold buildChildPsp
  dsimp only
  have hbytes : readw ((pspBytes psp env).foldl (fun mem p => writeb mem (psp * 16 + p.1) p.2)
      (fill (fill m.mem (psp * 16) 256 0) (psp * 16 + 0x18) 20 0xFF)) (psp * 16 + 0x2C) = env := by
    simp (disch := omega) only [pspBytes, List.foldl_cons, List.foldl_nil, readw, readb_writeb,
      readb_writeb_of_ne, Nat.add_assoc, Nat.reduceAdd]
    omega
  generalize (pspBytes psp env).foldl (fun mem p => writeb mem (psp * 16 + p.1) p.2)
    (fill (fill m.mem (psp * 16) 256 0) (psp * 16 + 0x18) 20 0xFF) = q at hbytes ⊢
  rw [readw_writeb_of_ne (by omega) (by omega), (copyUp_off _ _ _ _).readw (fun hx => ?_) fun hx => ?_,
    readw_writeb_of_ne (by omega) (by omega), hbytes]
  · have := hx.1
    omega
  · have := hx.1
    omega

/-! ### The call -/

/-- The path the caller names. -/
def dosPath (m : Machine) : List Nat := readDosString m.mem 260 (dosArgAddr m .ds .edx)

/-- AH=4B up to the environment: the program is loaded, and both blocks are allocated. -/
def execLoaded (host : Host) (m : Machine) : Option (Machine × Nat × Nat × InitialRegs) :=
  match loadChild host (host.resolvePath (dosPath m)) m with
  | some (.loaded m psp regs) =>
    match Mcb.mcbAllocate m (ENV_BYTES / 16) with
    | some (m, env, _) => if env = 0 then none else some (m, psp, env, regs)
    | none => none
  | _ => none

/-- Memory with the child's environment and PSP. -/
def withChild (m : Machine) (path : List Nat) (psp env : Nat) : Machine :=
  let m := m.setMem (putArgv0 (copyUp m.mem (env * 16) (parentEnvSeg m * 16) ENV_BYTES) (env * 16) path)
  m.setMem (buildChildPsp m psp env)

theorem withChild_mem (m : Machine) (path : List Nat) (psp env : Nat) : (withChild m path psp env).mem =
    buildChildPsp (m.setMem (putArgv0 (copyUp m.mem (env * 16) (parentEnvSeg m * 16) ENV_BYTES) (env * 16)
      path)) psp env := rfl

theorem sameGlobals_withChild (m : Machine) (path : List Nat) (psp env : Nat) :
    SameGlobals m (withChild m path psp env) := by
  unfold withChild
  exact (sameGlobals_setMem m _).trans (sameGlobals_setMem _ _)

theorem int21_4B_withChild {eng : Engine} {host : Host} {m m' : Machine} {saved : ExecSaved}
    (h : int21_4B eng host m = some (m', some saved)) : ∃ m₁ psp env regs,
      execLoaded host m = some (m₁, psp, env, regs) ∧ LoaderFrame m m₁ ∧ env ≠ 0 ∧
      saved = saveExec (withChild m₁ (argv0 (dosPath m)) psp env) ∧
      m' = startChild eng (withChild m₁ (argv0 (dosPath m)) psp env) psp env regs := by
  unfold int21_4B at h
  dsimp only at h
  split at h
  · cases h
  · rename_i hfile
    split at h
    · cases h
    · cases h
    · rename_i r psp regs hload
      split at h
      · cases h
      · rename_i r' env largest halloc
        split at h
        · cases h
        · rename_i henv
          rw [← dosPath] at h hload
          have hchild : withChild r' (argv0 (dosPath m)) psp env = (r'.setMem (putArgv0 (copyUp r'.mem
              (env * 16) (parentEnvSeg r' * 16) ENV_BYTES) (env * 16) (argv0 (dosPath m)))).setMem
                (buildChildPsp (r'.setMem (putArgv0 (copyUp r'.mem (env * 16) (parentEnvSeg r' * 16)
                  ENV_BYTES) (env * 16) (argv0 (dosPath m)))) psp env) := rfl
          rw [← hchild] at h
          obtain ⟨hm', hsaved⟩ := Prod.mk.inj (Option.some.inj h)
          refine ⟨r', psp, env, regs, ?_, (loadChild_frame hload).1.trans
            (imageFrame_mcbAllocate halloc).loader, henv, (Option.some.inj hsaved).symm, hm'.symm⟩
          unfold execLoaded
          rw [hload]
          dsimp only
          rw [halloc]
          exact if_neg henv

theorem startChild_mem (eng : Engine) (m : Machine) (psp env : Nat) (regs : InitialRegs) :
    (startChild eng m psp env regs).mem = m.mem := by
  have hseg : ∀ q s v, (segSet16 eng q s v).mem = q.mem := fun _ _ _ => rfl
  have hentry : ∀ q ip, (setEip q ip).mem = q.mem := fun _ _ => rfl
  have hcr0 : ∀ q v, (cpuSetCr0 q v).mem = q.mem := fun _ _ => rfl
  have hpush : (pushProcess m psp env).mem = m.mem := rfl
  unfold startChild
  dsimp only
  split
  · rw [hcr0, setR32_mem, setR32_mem, hentry, hseg, hseg, hseg, hseg, hpush]
  · rw [setR32_mem, setR32_mem, hentry, hseg, hseg, hseg, hseg, hpush]

theorem startChild_psp (eng : Engine) (m : Machine) (psp env : Nat) (regs : InitialRegs) :
    (startChild eng m psp env regs).currentPspSeg = psp ∧
      (startChild eng m psp env regs).currentEnvSeg = env := by
  rw [(sameGlobals_startChild eng m psp env regs).eq]
  exact ⟨rfl, rfl⟩

/-- AH=4B that enters no child leaves the process globals alone. -/
theorem failed_frame {eng : Engine} {host : Host} {m m' : Machine}
    (h : int21_4B eng host m = some (m', none)) : ServiceFrame m m' := by
  obtain ⟨-, hf⟩ | ⟨_, _, _, _, -, hr, -⟩ := int21_4B_cases h
  · exact hf
  · cases hr

/-- AH=4B that enters a child keeps what was published, and pushes a process. -/
theorem started_globals {eng : Engine} {host : Host} {m m' : Machine} {saved : ExecSaved}
    (h : int21_4B eng host m = some (m', some saved)) : saved.pspSeg = m.currentPspSeg ∧
      saved.envSeg = m.currentEnvSeg ∧ m'.processStack.length = m.processStack.length + 1 := by
  obtain ⟨m₁, psp, env, regs, -, hframe, -, rfl, rfl⟩ := int21_4B_withChild h
  have hg := sameGlobals_withChild m₁ (argv0 (dosPath m)) psp env
  generalize withChild m₁ (argv0 (dosPath m)) psp env = q at hg ⊢
  have hf := hframe.serviceFrame
  refine ⟨?_, ?_, ?_⟩
  · rw [saveExec, hg.eq]
    exact congrArg ProcessGlobals.currentPspSeg hf
  · rw [saveExec, hg.eq]
    exact congrArg ProcessGlobals.currentEnvSeg hf
  · rw [Nesting.startChild_processStack, hg.processStack, hf.processStack, List.length_cons]

/-- The end of a child puts back what was published, and pops its process. -/
theorem ended_globals (eng : Engine) {m : Machine} {n : Nat} (saved : ExecSaved)
    (h : m.processStack.length = n + 1) :
    (execEnd eng saved (int21_4C m)).1.currentPspSeg = saved.pspSeg ∧
      (execEnd eng saved (int21_4C m)).1.currentEnvSeg = saved.envSeg ∧
      (execEnd eng saved (int21_4C m)).1.extenderBound = m.extenderBound ∧
      (execEnd eng saved (int21_4C m)).1.processStack.length = n := by
  have hlen : (int21_4C m).processStack.length = n + 1 := (Nesting.int21_4C_length m).trans h
  obtain ⟨ps, tl, hps⟩ := List.exists_cons_of_length_eq_add_one hlen
  have hg := (execEnd_spec eng saved hps).1
  have hflag : (int21_4C m).extenderBound = m.extenderBound := by
    unfold int21_4C
    split <;> rfl
  refine ⟨?_, ?_, ?_, ?_⟩
  · rw [hg.eq]
    rfl
  · rw [hg.eq]
    rfl
  · rw [hg.eq]
    exact hflag
  · rw [hg.processStack]
    show (int21_4C m).processStack.tail.length = n
    rw [List.length_tail, hlen, Nat.add_sub_cancel]

theorem readDosString_spec (mem : Mem) : ∀ n a, CStr (readDosString mem n a) ∧
    (readDosString mem n a).length ≤ n
  | 0, _ => ⟨fun _ h => absurd h List.not_mem_nil, le_refl 0⟩
  | n + 1, a => by
    rw [readDosString]
    split
    · exact ⟨fun _ h => absurd h List.not_mem_nil, Nat.zero_le _⟩
    · rename_i hne
      obtain ⟨hok, hlen⟩ := readDosString_spec mem n (a + 1)
      refine ⟨fun c hc => ?_, Nat.succ_le_succ hlen⟩
      rcases List.mem_cons.mp hc with rfl | hc
      · exact ⟨Nat.pos_of_ne_zero hne, readb_lt _ _⟩
      · exact hok c hc

/-- The child's path is a C string with a drive, and short. -/
theorem argv0_spec {p : List Nat} (h : CStr p) :
    CStr (argv0 p) ∧ argv0 p ≠ [] ∧ (argv0 p).length ≤ p.length + 3 := by
  have hmap : CStr (p.map upperSlash) := by
    intro c hc
    obtain ⟨d, hd, rfl⟩ := List.mem_map.mp hc
    exact upperSlash_pos (h d hd)
  unfold argv0
  dsimp only
  split
  · refine ⟨cstr_append (by decide) ?_, by simp, ?_⟩
    · split
      · exact fun c hc => hmap c (List.mem_of_mem_tail hc)
      · exact hmap
    · split <;> simp only [List.length_append, List.length_cons, List.length_nil, List.length_tail,
        List.length_map] <;> omega
  · rename_i hlong
    refine ⟨hmap, fun hnil => hlong (Or.inl ?_), ?_⟩
    · rw [hnil]
      decide
    · rw [List.length_map]
      exact Nat.le_add_right _ _

/-! ### A nest of programs -/

/-- The machine, the AH=4B calls that wait, and for the program that runs and each that waits the
    environment segment its PSP named when it started. -/
structure Nest where
  machine : Machine
  waiting : List ExecSaved
  envs : List Nat

/-- `other` is guest code and every call that starts and ends no program. -/
inductive NestEvent where
  | other (m : Machine)
  | exec (host : Host)
  | exit

def nestStep (eng : Engine) (s : Nest) (e : NestEvent) (t : Nest) : Prop :=
  match e with
  | .other m => m.currentEnvSeg = s.machine.currentEnvSeg ∧ m.processStack = s.machine.processStack ∧
      t = { s with machine := m }
  | .exec host => ∃ m r, int21_4B eng host s.machine = some (m, r) ∧
      t = match r with
        | none => { s with machine := m }
        | some saved => ⟨m, saved :: s.waiting, readw m.mem (m.currentPspSeg * 16 + 0x2C) :: s.envs⟩
  | .exit => ∃ saved rest, s.waiting = saved :: rest ∧
      t = ⟨(execEnd eng saved (int21_4C s.machine)).1, rest, s.envs.tail⟩

/-- The top-level program runs, with the environment at ENV_SEG. -/
structure Top (s : Nest) : Prop where
  env : s.machine.currentEnvSeg = 0
  stack : s.machine.processStack = []
  waiting : s.waiting = []
  envs : s.envs = [ENV_SEG]

/-- `s_current_env_seg ? s_current_env_seg : ENV_SEG` -/
def ownEnv (seg : Nat) : Nat := if seg = 0 then ENV_SEG else seg

/-- The current environment is the one the running program started with, and so back through the
    programs that wait. -/
structure EnvsKnown (s : Nest) : Prop where
  envs : s.envs = ownEnv s.machine.currentEnvSeg :: s.waiting.map fun saved => ownEnv saved.envSeg
  stack : s.machine.processStack.length = s.waiting.length

theorem Top.envsKnown {s : Nest} (h : Top s) : EnvsKnown s where
  envs := by
    rw [h.envs, h.env, h.waiting]
    rfl
  stack := by
    rw [h.stack, h.waiting]
    rfl

theorem mcbAllocate_lt {m : Machine} {need : Nat} {r : Machine × Nat × Nat}
    (h : Mcb.mcbAllocate m need = some r) : r.2.1 < 65536 := by
  have hseg := mcbAllocate_seg m need
  rw [h, Option.map_some] at hseg
  obtain ⟨q, -, hq⟩ := Option.map_eq_some_iff.mp hseg.symm
  rw [← hq]
  split
  · decide
  · exact Nat.mod_lt _ (by decide)

theorem execLoaded_env_lt {host : Host} {m : Machine} {r : Machine × Nat × Nat × InitialRegs}
    (h : execLoaded host m = some r) : r.2.2.1 < 65536 := by
  unfold execLoaded at h
  split at h
  · split at h
    · rename_i halloc
      split at h
      · cases h
      · cases h
        exact mcbAllocate_lt halloc
    · cases h
  · cases h

theorem child_env_word {eng : Engine} {m : Machine} {path : List Nat} {psp env : Nat} {regs : InitialRegs}
    (henv : env < 65536) :
    readw (startChild eng (withChild m path psp env) psp env regs).mem
      ((startChild eng (withChild m path psp env) psp env regs).currentPspSeg * 16 + 0x2C) = env := by
  rw [startChild_mem, (startChild_psp _ _ _ _ _).1]
  exact buildChildPsp_env _ psp henv

theorem nestStep_envsKnown {eng : Engine} {s t : Nest} {e : NestEvent} (h : EnvsKnown s)
    (hs : nestStep eng s e t) : EnvsKnown t := by
  cases e with
  | other m =>
    obtain ⟨henv, hstack, rfl⟩ := hs
    constructor
    · rw [h.envs]
      dsimp only
      rw [henv]
    · dsimp only
      rw [hstack, h.stack]
  | exec host =>
    obtain ⟨m, r, hexec, rfl⟩ := hs
    cases r with
    | none =>
      have hf := failed_frame hexec
      have henv : m.currentEnvSeg = s.machine.currentEnvSeg := congrArg ProcessGlobals.currentEnvSeg hf
      constructor
      · rw [h.envs]
        dsimp only
        rw [henv]
      · dsimp only
        rw [hf.processStack, h.stack]
    | some saved =>
      obtain ⟨-, hsaved, hstack⟩ := started_globals hexec
      obtain ⟨m₁, psp, env, regs, hload, -, henv, -, rfl⟩ := int21_4B_withChild hexec
      have hlt : env < 65536 := execLoaded_env_lt hload
      have hself : ownEnv env = env := if_neg henv
      constructor
      · dsimp only
        rw [child_env_word hlt, h.envs, (startChild_psp _ _ _ _ _).2, List.map_cons, hself, hsaved]
      · dsimp only
        rw [hstack, h.stack, List.length_cons]
  | exit =>
    obtain ⟨saved, rest, hw, rfl⟩ := hs
    obtain ⟨-, henv, -, hstack⟩ := ended_globals eng (n := rest.length) saved (by
      rw [h.stack, hw, List.length_cons])
    constructor
    · dsimp only
      rw [h.envs, hw, List.tail_cons, List.map_cons, henv]
    · exact hstack

/-! ### The environment asked for -/

/-- The variables `ss` stand at `a`, with the extra NUL. -/
def EnvAt (mem : Mem) (a : Nat) (ss : List (List Nat)) : Prop :=
  (∀ s ∈ ss, s ≠ [] ∧ CStr s) ∧ BytesAt mem a (strings ss ++ [0])

/-- The segment the parameter block names, or the caller's own environment. -/
def askedEnv (m : Machine) (own : Nat) : Nat :=
  let seg := readw m.mem (lin (m.segPhys .es + m.bx))
  if seg = 0 then own else seg

/-- The child's block, in its 2 KB, has the variables of the environment asked for and the child's
    path.  `m` is the machine it is built in, `m'` that of the child's first instruction. -/
def RightEnv (s : Nest) (m m' : Machine) : Prop :=
  ∀ own ∈ s.envs.head?, ∀ ss, EnvAt m.mem (askedEnv m own * 16) ss → (strings ss).length + 1 ≤ ENV_BYTES →
    (encode ss (argv0 (dosPath s.machine))).length ≤ ENV_BYTES ∧
      BytesAt m'.mem (readw m'.mem (m'.currentPspSeg * 16 + 0x2C) * 16)
        (encode ss (argv0 (dosPath s.machine)))

/-- The block fits in 2 KB, and what AH=4B copies begins like the environment asked for, with one
    variable at least; or it is a block without variables with the child's own path. -/
def SourceFits (m : Machine) (path : List Nat) : Prop :=
  ∀ ss, EnvAt m.mem (askedEnv m (ownEnv m.currentEnvSeg) * 16) ss → (strings ss).length + 1 ≤ ENV_BYTES →
    (encode ss path).length ≤ ENV_BYTES ∧ BytesAt m.mem (parentEnvSeg m * 16) (core ss path ++ [0])

/-- The child's environment lies apart from its PSP, and does not begin in the 2 KB copied. -/
structure BlocksApart (m : Machine) (psp env : Nat) : Prop where
  psp : psp * 16 + PSP_REACH ≤ env * 16 ∨ env * 16 + ENV_BYTES ≤ psp * 16
  source : env * 16 ≤ parentEnvSeg m * 16 ∨ parentEnvSeg m * 16 + ENV_BYTES ≤ env * 16

/-- The child's block, once its PSP is built. -/
theorem withChild_block_iff {m : Machine} {path : List Nat} {psp env : Nat} {ss : List (List Nat)}
    (hapart : BlocksApart m psp env) (hss : ∀ s ∈ ss, s ≠ [] ∧ CStr s) (hpath : CStr path) (hne : path ≠ [])
    (hshort : path.length + 5 ≤ ENV_BYTES) (hfit : (encode ss path).length ≤ ENV_BYTES) :
    BytesAt (withChild m path psp env).mem (env * 16) (encode ss path) ↔
      BytesAt m.mem (parentEnvSeg m * 16) (core ss path ++ [0]) := by
  have hpsp : ∀ i < ENV_BYTES, readb (withChild m path psp env).mem (env * 16 + i) =
      readb (putArgv0 (copyUp m.mem (env * 16) (parentEnvSeg m * 16) ENV_BYTES) (env * 16) path)
        (env * 16 + i) := by
    intro i hi
    have hmem : ∀ q : Mem, (m.setMem q).mem = q := fun _ => rfl
    have hoff := buildChildPsp_off (m.setMem (putArgv0 (copyUp m.mem (env * 16) (parentEnvSeg m * 16)
      ENV_BYTES) (env * 16) path)) psp env
    rw [← withChild_mem, hmem] at hoff
    refine hoff.readb fun hx => ?_
    have h₁ := hx.1
    have h₂ := hx.2
    rcases hapart.psp with h | h <;> omega
  have hcopy : ∀ i < ENV_BYTES,
      readb (copyUp m.mem (env * 16) (parentEnvSeg m * 16) ENV_BYTES) (env * 16 + i) =
        readb m.mem (parentEnvSeg m * 16 + i) := fun i hi => readb_copyUp m.mem hapart.source hi
  have hcore : (core ss path ++ [0]).length ≤ ENV_BYTES := (encode_starts ss path).length_le.trans hfit
  have hblock : BytesAt
      (putArgv0 (copyUp m.mem (env * 16) (parentEnvSeg m * 16) ENV_BYTES) (env * 16) path)
      (env * 16) (encode ss path) ↔
      BytesAt (copyUp m.mem (env * 16) (parentEnvSeg m * 16) ENV_BYTES) (env * 16)
        (core ss path ++ [0]) := putArgv0_block_iff hss hpath hne hshort hfit
  constructor
  · intro h
    have hin := hblock.mp fun i hi => (hpsp i (hi.trans_le hfit)).symm.trans (h i hi)
    exact fun i hi => (hcopy i (hi.trans_le hcore)).symm.trans (hin i hi)
  · intro h
    have hout := hblock.mpr fun i hi => (hcopy i (hi.trans_le hcore)).trans (h i hi)
    exact fun i hi => (hpsp i (hi.trans_le hfit)).trans (hout i hi)

theorem argv0_dosPath (m : Machine) : CStr (argv0 (dosPath m)) ∧ argv0 (dosPath m) ≠ [] ∧
    (argv0 (dosPath m)).length + 5 ≤ ENV_BYTES := by
  obtain ⟨hdos, hdoslen⟩ := readDosString_spec m.mem 260 (dosArgAddr m .ds .edx)
  obtain ⟨hpath, hne, hlen⟩ := argv0_spec hdos
  refine ⟨hpath, hne, ?_⟩
  simp only [ENV_BYTES, dosPath]
  omega

/-- **The environment of a child.**  In every state of a run of nested programs, an AH=4B that starts a
    child builds its environment in a machine `m₁` with the registers of the caller; where
    the child's blocks lie apart, the environment is the one asked for exactly if `SourceFits`. -/
theorem childEnv_right_iff {eng : Engine} {s₀ s : Nest} {es : List NestEvent} (h₀ : Top s₀)
    (hrun : Run (nestStep eng) s₀ es s) {host : Host} {m' : Machine} {saved : ExecSaved}
    (hexec : int21_4B eng host s.machine = some (m', some saved)) :
    ∃ m₁ psp env regs, execLoaded host s.machine = some (m₁, psp, env, regs) ∧
      LoaderFrame s.machine m₁ ∧
      (BlocksApart m₁ psp env → (RightEnv s m₁ m' ↔ SourceFits m₁ (argv0 (dosPath s.machine)))) := by
  have hknown : EnvsKnown s := hrun.invariant (fun _ _ _ => nestStep_envsKnown) h₀.envsKnown
  obtain ⟨m₁, psp, env, regs, hload, hframe, henv, -, rfl⟩ := int21_4B_withChild hexec
  refine ⟨m₁, psp, env, regs, hload, hframe, fun hapart => ?_⟩
  have hown : s.envs.head? = some (ownEnv m₁.currentEnvSeg) := by
    have hsame : m₁.currentEnvSeg = s.machine.currentEnvSeg :=
      congrArg ProcessGlobals.currentEnvSeg hframe.serviceFrame
    rw [hknown.envs, hsame]
    rfl
  obtain ⟨hpath, hne, hshort⟩ := argv0_dosPath s.machine
  have hlt : env < 65536 := execLoaded_env_lt hload
  unfold RightEnv SourceFits
  rw [child_env_word hlt, startChild_mem, hown]
  constructor
  · intro h ss hss hle
    obtain ⟨hfit, hbytes⟩ := h _ rfl ss hss hle
    exact ⟨hfit, (withChild_block_iff hapart hss.1 hpath hne hshort hfit).mp hbytes⟩
  · intro h own how ss hss hle
    obtain rfl : ownEnv m₁.currentEnvSeg = own := Option.some.inj how
    obtain ⟨hfit, hbytes⟩ := h ss hss hle
    exact ⟨hfit, (withChild_block_iff hapart hss.1 hpath hne hshort hfit).mpr hbytes⟩

/-! ### A parameter block with an environment -/

/-- The variable A=1 stands at 1800:0000, and the parameter block, at ES:BX = 0000:0000, names it. -/
def naming : Machine :=
  { bootMachine with mem := storeBytes (writew (fun _ => 0) 0 0x1800) 0x18000 (encode [ascii "A=1"] []) }

def namingNest : Nest := ⟨naming, [], [ENV_SEG]⟩

theorem naming_top : Top namingNest := ⟨rfl, rfl, rfl, rfl⟩

theorem naming_runs : ((int21_4B tableEngine Nesting.tinyHost naming).bind (·.2)).isSome = true := by
  decide +kernel

theorem naming_starts : ∃ m' saved, int21_4B tableEngine Nesting.tinyHost naming = some (m', some saved) := by
  obtain ⟨saved, hsaved⟩ := Option.isSome_iff_exists.mp naming_runs
  obtain ⟨⟨m', r⟩, hexec, hr⟩ := Option.bind_eq_some_iff.mp hsaved
  exact ⟨m', saved, hexec.trans (congrArg (fun r => some (m', r)) hr)⟩

/-- Where the blocks are, and the segments that are copied and asked for. -/
theorem naming_blocks : (execLoaded Nesting.tinyHost naming).map
    (fun r => (r.2.1, r.2.2.1, parentEnvSeg r.1, askedEnv r.1 ENV_SEG)) =
      some (0x2001, 0x6002, ENV_SEG, 0x1800) := by
  decide +kernel

theorem naming_apart {m₁ : Machine} {psp env : Nat} {regs : InitialRegs}
    (h : execLoaded Nesting.tinyHost naming = some (m₁, psp, env, regs)) : BlocksApart m₁ psp env := by
  have hblocks := naming_blocks
  rw [h, Option.map_some] at hblocks
  simp only [Option.some.injEq, Prod.mk.injEq] at hblocks
  obtain ⟨hpsp, henv, hsrc, -⟩ := hblocks
  constructor
  · rw [hpsp, henv]
    decide
  · rw [henv, hsrc]
    decide

theorem childEnv_right_iff_naming : ∃ m' m₁,
    RightEnv namingNest m₁ m' ↔ SourceFits m₁ (argv0 (dosPath naming)) := by
  obtain ⟨m', saved, hexec⟩ := naming_starts
  obtain ⟨m₁, psp, env, regs, hload, -, hiff⟩ :=
    childEnv_right_iff naming_top (.nil namingNest) hexec
  exact ⟨m', m₁, hiff (naming_apart hload)⟩

/-- The environment the parameter block names, and the first byte of the child's. -/
theorem naming_copied : (execLoaded Nesting.tinyHost naming).map (fun r =>
    ((List.range 5).map fun i => readb r.1.mem (0x18000 + i), readb r.1.mem (ENV_SEG * 16))) =
      some (strings [ascii "A=1"] ++ [0], 0) := by
  decide +kernel

/-- AH=4B does not look at the environment the parameter block names. -/
theorem childEnv_ignores_block : ¬ ∀ s₀ es s, Top s₀ → Run (nestStep tableEngine) s₀ es s →
    s.machine.cpu.pmode = false → ∀ host m' saved m₁ psp env regs,
      int21_4B tableEngine host s.machine = some (m', some saved) →
      execLoaded host s.machine = some (m₁, psp, env, regs) → RightEnv s m₁ m' := by
  intro h
  obtain ⟨m', saved, hexec⟩ := naming_starts
  obtain ⟨m₁, psp, env, regs, hload, hframe, henv, -, rfl⟩ := int21_4B_withChild hexec
  have hright := h namingNest [] namingNest naming_top (.nil _) rfl _ _ saved m₁ psp env regs hexec hload
  have hblocks := naming_blocks
  have hcopied := naming_copied
  rw [hload, Option.map_some] at hblocks hcopied
  simp only [Option.some.injEq, Prod.mk.injEq] at hblocks hcopied
  obtain ⟨-, -, hsrc, hasked⟩ := hblocks
  obtain ⟨hvar, hzero⟩ := hcopied
  have hss : ∀ s ∈ [ascii "A=1"], s ≠ [] ∧ CStr s := by decide
  have hat : EnvAt m₁.mem (askedEnv m₁ ENV_SEG * 16) [ascii "A=1"] := by
    refine ⟨hss, fun i hi => ?_⟩
    have hi' : i < 5 := hi
    rw [hasked]
    simp only [← hvar, List.getElem_map, List.getElem_range]
  obtain ⟨hfit, hbytes⟩ := hright ENV_SEG rfl [ascii "A=1"] hat (by decide)
  have hlt : env < 65536 := execLoaded_env_lt hload
  rw [child_env_word hlt, startChild_mem] at hbytes
  obtain ⟨hpath, hne, hshort⟩ := argv0_dosPath naming
  have hsource := (withChild_block_iff (naming_apart hload) hss hpath hne hshort hfit).mp hbytes
  have hfirst := hsource 0 (by decide)
  rw [hsrc, Nat.add_zero, hzero] at hfirst
  exact absurd hfirst (by decide)

end Dosiz.ChildEnv
