/-
  Dosiz/ProcessIdentity.lean
  ==========================
  **Whose PSP and whose disk transfer area** (INT 21h AH=1A, AH=4E, AH=51 and AH=62).

  AH=51 and AH=62 answer the constant PSP_SEG, although AH=4B publishes the child's PSP in
  `s_current_psp_seg` and puts the parent's back.  There is one `s_dta_linear` for the session:
  it starts at PSP_SEG:0080, and AH=1A of any program sets it.  `identity_right_iff` says, for the
  programs of a nest of AH=4B calls, when each sees its own.
-/
import Dosiz.ChildEnv

namespace Dosiz.Identity

open ByteMemory Machine Transition ChildEnv

/-! ### The entry of a directory search -/

/-- A file a search finds: what `stat` says of it, and its mangled name. -/
structure DirEntry where
  dir : Bool
  dostime : Nat
  dosdate : Nat
  size : Nat
  name : List Nat

/-- The writes of `dta_write_entry`, in order: offset and byte. -/
def dtaWrites (e : DirEntry) (token : Nat) : List (Nat × Nat) :=
  (List.range 0x15).map (fun i => (i, 0)) ++
  ((if token ≠ 0 then [(0, 0x44), (1, 0x53), (2, 0x46), (3, 0x4E), (4, token), (5, token / 256),
    (6, token / 65536), (7, token / 16777216)] else []) ++
  ([(0x15, if e.dir then 0x10 else 0x20), (0x16, e.dostime), (0x17, e.dostime / 256), (0x18, e.dosdate),
    (0x19, e.dosdate / 256), (0x1A, e.size), (0x1B, e.size / 256), (0x1C, e.size / 65536),
    (0x1D, e.size / 16777216)] ++
  (List.range 13).map (fun i => (0x1E + i, (e.name.take 12).getD i 0))))

/-- `dta_write_entry` -/
def dtaWriteEntry (mem : Mem) (dta : Nat) (e : DirEntry) (token : Nat) : Mem :=
  (dtaWrites e token).foldl (fun mem p => writeb mem (lin (dta + p.1)) p.2) mem

/-- What `build_find_state` and `scan_next` come to. -/
inductive Search where
  | noPath
  | noMatch
  | found (e : DirEntry)

/-- AH=4E: find the first match of the path at DS:DX. -/
def int21_4E (search : List Nat → Search) (token dta : Nat) (m : Machine) : Machine × Bool :=
  match search (dosPath m) with
  | .noPath => failWith m 0x03
  | .noMatch => failWith m 0x12
  | .found e => (m.setMem (dtaWriteEntry m.mem dta e token), false)

/-- AH=51, and AH=62 -/
def int21_51 (m : Machine) : Machine := m.setR16 .ebx PSP_SEG

/-- The length of an entry. -/
def ENTRY_BYTES : Nat := 43

/-- The writes are those of the entry's bytes, each at least once. -/
theorem mem_dtaWrites (e : DirEntry) (token i : Nat) :
    (∃ v, (i, v) ∈ dtaWrites e token) ↔ i < ENTRY_BYTES := by
  unfold dtaWrites ENTRY_BYTES
  constructor
  · rintro ⟨v, hv⟩
    rcases List.mem_append.mp hv with hv | hv
    · obtain ⟨k, hk, heq⟩ := List.mem_map.mp hv
      have := List.mem_range.mp hk
      have := congrArg Prod.fst heq
      dsimp only at this
      omega
    rcases List.mem_append.mp hv with hv | hv
    · split_ifs at hv
      · simp only [List.mem_cons, Prod.mk.injEq, List.not_mem_nil, or_false] at hv
        omega
      · exact absurd hv List.not_mem_nil
    rcases List.mem_append.mp hv with hv | hv
    · simp only [List.mem_cons, Prod.mk.injEq, List.not_mem_nil, or_false] at hv
      omega
    · obtain ⟨k, hk, heq⟩ := List.mem_map.mp hv
      have := List.mem_range.mp hk
      have := congrArg Prod.fst heq
      dsimp only at this
      omega
  · intro hi
    by_cases hlow : i < 0x15
    · exact ⟨0, List.mem_append_left _ (List.mem_map.mpr ⟨i, List.mem_range.mpr hlow, rfl⟩)⟩
    by_cases hname : 0x1E ≤ i
    · refine ⟨(e.name.take 12).getD (i - 0x1E) 0, List.mem_append_right _ (List.mem_append_right _
        (List.mem_append_right _ (List.mem_map.mpr ⟨i - 0x1E, List.mem_range.mpr (by omega), ?_⟩)))⟩
      rw [Nat.add_sub_cancel' hname]
    · have hfield : i = 0x15 ∨ i = 0x16 ∨ i = 0x17 ∨ i = 0x18 ∨ i = 0x19 ∨ i = 0x1A ∨ i = 0x1B ∨ i = 0x1C ∨
          i = 0x1D := by omega
      have hvalue : ∃ v, (i, v) ∈ [(0x15, if e.dir then 0x10 else 0x20), (0x16, e.dostime),
          (0x17, e.dostime / 256), (0x18, e.dosdate), (0x19, e.dosdate / 256), (0x1A, e.size),
          (0x1B, e.size / 256), (0x1C, e.size / 65536), (0x1D, e.size / 16777216)] := by
        rcases hfield with rfl | rfl | rfl | rfl | rfl | rfl | rfl | rfl | rfl <;> simp
      obtain ⟨v, hv⟩ := hvalue
      exact ⟨v, List.mem_append_right _ (List.mem_append_right _ (List.mem_append_left _ hv))⟩

theorem writes_off {dta x : Nat} {ps : List (Nat × Nat)} (h : ∀ p ∈ ps, lin (dta + p.1) ≠ x) (mem : Mem) :
    ps.foldl (fun mem p => writeb mem (lin (dta + p.1)) p.2) mem x = mem x := by
  induction ps generalizing mem with
  | nil => rfl
  | cons p ps ih =>
    rw [List.foldl_cons, ih fun q hq => h q (List.mem_cons_of_mem p hq)]
    exact writeb_of_ne (h p List.mem_cons_self).symm

/-- Bytes that are all other than `b` leave no `b` where they are stored. -/
theorem writes_ne {dta x : Nat} {b : UInt8} {ps : List (Nat × Nat)} (h : ∀ p ∈ ps, UInt8.ofNat p.2 ≠ b)
    (mem : Mem) (hx : mem x ≠ b ∨ ∃ p ∈ ps, lin (dta + p.1) = x) :
    ps.foldl (fun mem p => writeb mem (lin (dta + p.1)) p.2) mem x ≠ b := by
  induction ps generalizing mem with
  | nil =>
    rcases hx with hx | ⟨p, hp, -⟩
    · exact hx
    · exact absurd hp List.not_mem_nil
  | cons p ps ih =>
    rw [List.foldl_cons]
    refine ih (fun q hq => h q (List.mem_cons_of_mem p hq)) _ ?_
    by_cases hat : x = lin (dta + p.1)
    · left
      rw [writeb, if_pos hat]
      exact h p List.mem_cons_self
    · rw [writeb_of_ne hat]
      rcases hx with hx | ⟨q, hq, hqx⟩
      · exact Or.inl hx
      · rcases List.mem_cons.mp hq with rfl | hq
        · exact absurd hqx.symm hat
        · exact Or.inr ⟨q, hq, hqx⟩

/-- The addresses AH=4E stores an entry at. -/
def StoresAt (dta x : Nat) : Prop :=
  ∃ m search token, (int21_4E search token dta m).1.mem x ≠ m.mem x

theorem storesAt_iff (dta x : Nat) : StoresAt dta x ↔ ∃ i < ENTRY_BYTES, x = lin (dta + i) := by
  constructor
  · rintro ⟨m, search, token, hne⟩
    by_contra hno
    refine hne ?_
    unfold int21_4E
    cases search (dosPath m) with
    | noPath => rfl
    | noMatch => rfl
    | found e =>
      refine writes_off (fun p hp hx => hno ⟨p.1, ?_, hx.symm⟩) m.mem
      exact (mem_dtaWrites e token p.1).mp ⟨p.2, hp⟩
  · rintro ⟨i, hi, rfl⟩
    -- an entry of zeros over memory full of FFh
    have hvalues : ∀ p ∈ dtaWrites ⟨false, 0, 0, 0, []⟩ 0, UInt8.ofNat p.2 ≠ 0xFF := by decide
    obtain ⟨v, hv⟩ := (mem_dtaWrites ⟨false, 0, 0, 0, []⟩ 0 i).mpr hi
    refine ⟨bootMachine.setMem fun _ => 0xFF, fun _ => .found ⟨false, 0, 0, 0, []⟩, 0, ?_⟩
    exact writes_ne hvalues _ (Or.inr ⟨(i, v), hv, rfl⟩)

/-- Entries stored at the same addresses are stored at the same place. -/
theorem storesAt_unique {a b : Nat} (ha : a < 4294967296) (hb : b < 4294967296)
    (h : ∀ x, StoresAt a x ↔ StoresAt b x) : a = b := by
  have h₁ := (h a).mp ((storesAt_iff a a).mpr ⟨0, by decide, (lin_of_lt ha).symm⟩)
  have h₂ := (h b).mpr ((storesAt_iff b b).mpr ⟨0, by decide, (lin_of_lt hb).symm⟩)
  obtain ⟨i, hi, hai⟩ := (storesAt_iff b a).mp h₁
  obtain ⟨j, hj, hbj⟩ := (storesAt_iff a b).mp h₂
  unfold lin at hai hbj
  unfold ENTRY_BYTES at hi hj
  omega

/-! ### Sessions -/

/-- A program that waits for its child: its locals, its PSP and whether it has made AH=1A, and at the
    call the current PSP, the disk transfer area and the arguments of the AH=1A calls so far. -/
structure Frame where
  saved : ExecSaved
  psp : Nat
  asked : Bool
  published : Nat
  dta : Nat
  args : List Nat

/-- The machine and `s_dta_linear`; the programs that wait; the PSP of the one that runs and whether
    it has made AH=1A; and the arguments of the AH=1A calls so far, the last one first. -/
structure Session where
  machine : Machine
  dta : Nat
  waiting : List Frame
  psp : Nat
  asked : Bool
  args : List Nat

/-- `other` is guest code and every call that starts and ends no program, AH=1A apart. -/
inductive SessionEvent where
  | other (m : Machine)
  | setDta
  | exec (host : Host)
  | exit

/-- The PSP of the child AH=4B starts. -/
def childPsp (host : Host) (m : Machine) : Nat := ((execLoaded host m).map (·.2.1)).getD 0

def sessionStep (eng : Engine) (s : Session) (e : SessionEvent) (t : Session) : Prop :=
  match e with
  | .other m => m.currentPspSeg = s.machine.currentPspSeg ∧ m.processStack = s.machine.processStack ∧
      t = { s with machine := m }
  | .setDta => t = { s with
      dta := dosArgAddr s.machine .ds .edx
      asked := true
      args := dosArgAddr s.machine .ds .edx :: s.args }
  | .exec host => ∃ m r, int21_4B eng host s.machine = some (m, r) ∧
      t = match r with
        | none => { s with machine := m }
        | some saved => { s with
            machine := m
            waiting := ⟨saved, s.psp, s.asked, s.machine.currentPspSeg, s.dta, s.args⟩ :: s.waiting
            psp := childPsp host s.machine
            asked := false }
  | .exit => ∃ w rest, s.waiting = w :: rest ∧
      t = { s with
        machine := (execEnd eng w.saved (int21_4C s.machine)).1
        waiting := rest
        psp := w.psp
        asked := w.asked }

/-- The program at the start of the session. -/
structure Top (s : Session) : Prop where
  published : s.machine.currentPspSeg = 0
  stack : s.machine.processStack = []
  dta : s.dta = PSP_SEG * 16 + 0x80
  waiting : s.waiting = []
  psp : s.psp = PSP_SEG
  asked : s.asked = false
  args : s.args = []

/-- The argument of the last AH=1A, or the area of the first program. -/
def lastSet (args : List Nat) : Nat := args.head?.getD (PSP_SEG * 16 + 0x80)

/-- `s_dta_linear` is the last argument of AH=1A, now and at each call that waits; AH=4B keeps the
    parent's current PSP. -/
structure Tracked (s : Session) : Prop where
  dta : s.dta = lastSet s.args
  args : ∀ a ∈ s.args, a < 4294967296
  psp : s.psp < 65536
  stack : s.machine.processStack.length = s.waiting.length
  frames : ∀ w ∈ s.waiting, w.dta = lastSet w.args ∧ w.saved.pspSeg = w.published ∧ w.psp < 65536

theorem lastSet_lt {args : List Nat} (h : ∀ a ∈ args, a < 4294967296) : lastSet args < 4294967296 := by
  cases args with
  | nil => decide
  | cons a args => exact h a List.mem_cons_self

theorem Top.tracked {s : Session} (h : Top s) : Tracked s where
  dta := by
    rw [h.dta, h.args]
    rfl
  args a ha := by
    rw [h.args] at ha
    exact absurd ha List.not_mem_nil
  psp := by
    rw [h.psp]
    decide
  stack := by
    rw [h.stack, h.waiting]
    rfl
  frames w hw := by
    rw [h.waiting] at hw
    exact absurd hw List.not_mem_nil

theorem childSpace_lt {m : Machine} {r : Machine × Nat} (h : childSpace m = some r) : r.2 < 65536 := by
  unfold childSpace at h
  dsimp only at h
  split at h
  · cases h
  · split_ifs at h
    · cases h
      exact Nat.zero_lt_succ _
    · split at h
      · cases h
      · rename_i halloc
        have hlt := mcbAllocate_lt halloc
        split_ifs at h
        · cases h
          exact Nat.zero_lt_succ _
        · cases h
          exact hlt

theorem loadChild_lt {host : Host} {path : List Nat} {m m' : Machine} {psp : Nat} {regs : InitialRegs}
    (h : loadChild host path m = some (.loaded m' psp regs)) : psp < 65536 := by
  unfold loadChild at h
  split at h
  · cases h
  · rename_i hspace
    have hlt := childSpace_lt hspace
    split_ifs at h
    · cases h
    · split at h
      · cases h
      · cases h
      · cases h
        exact hlt

theorem childPsp_lt (host : Host) (m : Machine) : childPsp host m < 65536 := by
  unfold childPsp execLoaded
  split
  · rename_i hload
    have hlt := loadChild_lt hload
    split
    · split_ifs
      · decide
      · exact hlt
    · decide
  · decide

theorem sessionStep_tracked {eng : Engine} {s t : Session} {e : SessionEvent} (h : Tracked s)
    (hs : sessionStep eng s e t) : Tracked t := by
  cases e with
  | other m =>
    obtain ⟨-, hstack, rfl⟩ := hs
    exact ⟨h.dta, h.args, h.psp, (congrArg List.length hstack).trans h.stack, h.frames⟩
  | setDta =>
    obtain rfl := hs
    refine ⟨rfl, fun a ha => ?_, h.psp, h.stack, h.frames⟩
    rcases List.mem_cons.mp ha with rfl | ha
    · exact Nat.mod_lt _ (by decide)
    · exact h.args a ha
  | exec host =>
    obtain ⟨m, r, hexec, rfl⟩ := hs
    cases r with
    | none =>
      have hf := failed_frame hexec
      exact ⟨h.dta, h.args, h.psp, (congrArg List.length hf.processStack).trans h.stack, h.frames⟩
    | some saved =>
      obtain ⟨hsaved, -, hstack⟩ := started_globals hexec
      refine ⟨h.dta, h.args, childPsp_lt host s.machine, ?_, fun w hw => ?_⟩
      · rw [hstack, h.stack, List.length_cons]
      · rcases List.mem_cons.mp hw with rfl | hw
        · exact ⟨h.dta, hsaved, h.psp⟩
        · exact h.frames w hw
  | exit =>
    obtain ⟨w, rest, hw, rfl⟩ := hs
    obtain ⟨-, -, -, hstack⟩ := ended_globals eng (n := rest.length) w.saved (by
      rw [h.stack, hw, List.length_cons])
    exact ⟨h.dta, h.args, (h.frames w (hw ▸ List.mem_cons_self)).2.2, hstack,
      fun v hv => h.frames v (hw ▸ List.mem_cons_of_mem w hv)⟩

/-! ### Its own -/

/-- AH=51 and AH=62 answer the PSP of the program that makes them. -/
def SeesOwnPsp (s : Session) : Prop := (int21_51 s.machine).bx = s.psp

/-- AH=4E stores its entry at offset 80h of the PSP of the program that makes it. -/
def FindsInOwnPsp (s : Session) : Prop := ∀ x, StoresAt s.dta x ↔ StoresAt (s.psp * 16 + 0x80) x

/-- The child that runs ends, and the program that waits for it has its current PSP and its disk
    transfer area back. -/
def GivesBack (eng : Engine) (s : Session) (w : Frame) : Prop :=
  ∀ t, sessionStep eng s .exit t → t.machine.currentPspSeg = w.published ∧ t.dta = w.dta

theorem givesBack_iff {eng : Engine} {s : Session} {w : Frame} {rest : List Frame} (h : Tracked s)
    (hw : s.waiting = w :: rest) : GivesBack eng s w ↔ lastSet s.args = lastSet w.args := by
  obtain ⟨hdta, hsaved, -⟩ := h.frames w (hw ▸ List.mem_cons_self)
  obtain ⟨hpsp, -⟩ := ended_globals eng (n := rest.length) w.saved (by
    rw [h.stack, hw, List.length_cons])
  have hback : (execEnd eng w.saved (int21_4C s.machine)).1.currentPspSeg = w.published :=
    hpsp.trans hsaved
  constructor
  · intro hall
    obtain ⟨-, hd⟩ := hall _ ⟨w, rest, hw, rfl⟩
    exact h.dta.symm.trans (hd.trans hdta)
  · rintro hargs t ⟨w', rest', hw', rfl⟩
    obtain ⟨rfl, rfl⟩ := List.cons.inj (hw.symm.trans hw')
    exact ⟨hback, h.dta.trans (hargs.trans hdta.symm)⟩

/-- **Whose PSP and whose area.**  In every state of a run of nested programs, AH=51 answers the
    program's own PSP exactly if it is the first program; before its first AH=1A a find-first of it
    goes to its own PSP exactly if the last AH=1A of all named that address; and the return of a
    child gives the parent's area back exactly if the last AH=1A still names what it named at the
    call. -/
theorem identity_right_iff {eng : Engine} {s₀ s : Session} {es : List SessionEvent} (h₀ : Top s₀)
    (hrun : Run (sessionStep eng) s₀ es s) :
    (SeesOwnPsp s ↔ s.psp = PSP_SEG) ∧
    (s.asked = false → (FindsInOwnPsp s ↔ lastSet s.args = s.psp * 16 + 0x80)) ∧
    ∀ w rest, s.waiting = w :: rest → (GivesBack eng s w ↔ lastSet s.args = lastSet w.args) := by
  have h : Tracked s := hrun.invariant (fun _ _ _ => sessionStep_tracked) h₀.tracked
  refine ⟨?_, fun _ => ?_, fun w rest hw => givesBack_iff h hw⟩
  · have hbx : (int21_51 s.machine).bx = PSP_SEG := r16_setR16 s.machine .ebx PSP_SEG
    rw [SeesOwnPsp, hbx]
    exact eq_comm
  · have hpsp := h.psp
    have hlt := lastSet_lt h.args
    constructor
    · intro hfinds
      rw [← h.dta]
      exact storesAt_unique (h.dta ▸ hlt) (by omega) hfinds
    · intro hargs x
      rw [h.dta, hargs]

/-! ### A child -/

/-- The first program, and the child it starts. -/
def firstSession : Session := ⟨naming, PSP_SEG * 16 + 0x80, [], PSP_SEG, false, []⟩

theorem firstSession_top : Top firstSession := ⟨rfl, rfl, rfl, rfl, rfl, rfl, rfl⟩

theorem naming_child : childPsp Nesting.tinyHost naming = 0x2001 := by
  unfold childPsp
  have hblocks := naming_blocks
  generalize execLoaded Nesting.tinyHost naming = loaded at hblocks ⊢
  obtain ⟨r, hr, heq⟩ := Option.map_eq_some_iff.mp hblocks
  rw [hr]
  exact congrArg Prod.fst heq

/-- The first program names the area at address 0 and starts a child. -/
theorem identity_right_iff_child : ∃ s w,
    Run (sessionStep tableEngine) firstSession [.setDta, .exec Nesting.tinyHost] s ∧
    s.waiting = [w] ∧ ¬ SeesOwnPsp s ∧ s.asked = false ∧ ¬ FindsInOwnPsp s ∧ GivesBack tableEngine s w := by
  obtain ⟨m', saved, hexec⟩ := naming_starts
  have harg : dosArgAddr naming .ds .edx = 0 := by decide +kernel
  let set : Session := { firstSession with dta := 0, asked := true, args := [0] }
  let w : Frame := ⟨saved, PSP_SEG, true, naming.currentPspSeg, 0, [0]⟩
  let s : Session := ⟨m', 0, [w], childPsp Nesting.tinyHost naming, false, [0]⟩
  have hset : sessionStep tableEngine firstSession .setDta set := by
    simp only [sessionStep, firstSession, harg, set]
  have hstart : sessionStep tableEngine set (.exec Nesting.tinyHost) s := ⟨m', some saved, hexec, rfl⟩
  have hrun : Run (sessionStep tableEngine) firstSession [.setDta, .exec Nesting.tinyHost] s :=
    .cons hset (.cons hstart (.nil s))
  obtain ⟨hown, hfinds, hback⟩ := identity_right_iff firstSession_top hrun
  refine ⟨s, w, hrun, rfl, fun h => ?_, rfl, fun h => ?_, (hback w [] rfl).mpr rfl⟩
  · have hbad : childPsp Nesting.tinyHost naming = PSP_SEG := hown.mp h
    rw [naming_child] at hbad
    exact absurd hbad (by decide)
  · have hbad : 0 = childPsp Nesting.tinyHost naming * 16 + 0x80 := (hfinds rfl).mp h
    rw [naming_child] at hbad
    exact absurd hbad (by decide)

/-- The child is told its parent's PSP, and its find-first goes there. -/
theorem child_sees_parent : ∃ s, Top firstSession ∧
    Run (sessionStep tableEngine) firstSession [.exec Nesting.tinyHost] s ∧ s.psp = 0x2001 ∧
    ¬ SeesOwnPsp s ∧ s.asked = false ∧ ¬ FindsInOwnPsp s := by
  obtain ⟨m', saved, hexec⟩ := naming_starts
  refine ⟨_, firstSession_top, .cons ⟨m', some saved, hexec, rfl⟩ (.nil _), naming_child, ?_, rfl, ?_⟩
  · intro hown
    have hbx : (int21_51 m').bx = PSP_SEG := r16_setR16 m' .ebx PSP_SEG
    have hbad : PSP_SEG = childPsp Nesting.tinyHost naming := hbx.symm.trans hown
    rw [naming_child] at hbad
    exact absurd hbad (by decide)
  · intro hfinds
    have hbad : PSP_SEG * 16 + 0x80 = childPsp Nesting.tinyHost naming * 16 + 0x80 :=
      storesAt_unique (by decide) (by rw [naming_child]; decide) hfinds
    rw [naming_child] at hbad
    exact absurd hbad (by decide)

end Dosiz.Identity
