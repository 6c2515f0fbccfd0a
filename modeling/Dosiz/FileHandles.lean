/-
  Dosiz/FileHandles.lean
  ======================
  **The DOS handle table over whole runs** (INT 21h AH=3C, 3D, 3E, 3F, 40, 42, 45, 46 and
  6C of `bridge.cc`).

  The table gives a handle a host descriptor, the host gives a descriptor an open file,
  and an open file has one position.  What the host answers to `open`, `dup`, `read`,
  `write` and `lseek` is an argument of the call.  `TableOk` is the invariant: handles
  from 5 to 19, each with a descriptor of its own, and no descriptor without a handle.
  Handles made by AH=45 and AH=46 denote the same open file, and with it its position.
-/
import Mathlib.Logic.Function.Basic
import Dosiz.Exec
import Dosiz.Handles
import Dosiz.Transition

namespace Dosiz.FileHandles

open ByteMemory Machine Transition

/-! ### Reading, writing and seeking -/

/-- What the read loop of AH=3F came to: how far it moved the file, the bytes it stored, and whether
    `read` failed. -/
structure ReadAnswer where
  consumed : Nat
  stored : List Nat
  failed : Bool

/-- The descriptor AH=3F reads: only handle 0 is a descriptor of the same number. -/
def readFd (m : Machine) : Option Nat := if m.bx = 0 then some 0 else m.handles m.bx

/-- The descriptor AH=40 writes. -/
def writeFd (m : Machine) : Option Nat :=
  if m.bx = 1 then some 1 else if m.bx = 2 then some 2 else m.handles m.bx

/-- A 32-bit client passes its count and its offset in full registers. -/
def pm32 (m : Machine) : Bool := m.cpu.pmode && m.intGateBits32

/-- AX, or EAX for a 32-bit client. -/
def setCount (m : Machine) (n : Nat) : Machine := if pm32 m then m.setR32 .eax n else m.setR16 .eax n

/-- AH=3F: read into DS:DX. -/
def int21_3F (m : Machine) (a : ReadAnswer) : Machine × Bool :=
  match readFd m with
  | none => failWith m 0x06
  | some _ =>
    let m := m.setMem (storeLin m.mem (dosArgAddr m .ds .edx) a.stored)
    if a.failed then (m.setR16 .eax a.stored.length, true) else (setCount m a.stored.length, false)

/-- AH=40: write from DS:DX; `written` is what `write` answered. -/
def int21_40 (m : Machine) (written : Option Nat) : Machine × Bool :=
  match writeFd m with
  | none => failWith m 0x06
  | some _ =>
    match written with
    | none => failWith m 0x05
    | some _ => (setCount m (if pm32 m then m.r32 .ecx else m.cx), false)

/-- AH=42: seek; `pos` is what `lseek` answered.  A standard handle that cannot seek reports 0. -/
def int21_42 (m : Machine) (pos : Option Nat) : Machine × Bool :=
  match sourceFd m with
  | none => failWith m 0x06
  | some _ =>
    match pos with
    | some p => (m.setR16s [(.eax, p), (.edx, p / 65536)], false)
    | none => if m.bx ≤ 4 then (m.setR16s [(.eax, 0), (.edx, 0)], false) else failWith m 0x19

/-! ### Positions -/

/-- The machine, and the position of every open file of the host. -/
structure FileHost where
  machine : Machine
  pos : Nat → Nat

inductive HandleCall where
  | table (c : FileCall)
  | read (a : ReadAnswer)
  | write (written : Option Nat)
  | seek (pos : Option Nat)

def HandleCall.serve (m : Machine) : HandleCall → Machine × Bool
  | .table c => c.serve m
  | .read a => int21_3F m a
  | .write n => int21_40 m n
  | .seek p => int21_42 m p

/-- The open file behind a descriptor. -/
def fileAt (m : Machine) (fd : Option Nat) : Option Nat := fd.bind m.fds

/-- Move the open file behind `fd`. -/
def moveFile (s : FileHost) (fd : Option Nat) (move : Nat → Nat) : Nat → Nat :=
  match fileAt s.machine fd with
  | none => s.pos
  | some f => Function.update s.pos f (move (s.pos f))

/-- Where the files stand after a call: a file just opened at its start. -/
def HandleCall.positions (s : FileHost) : HandleCall → Nat → Nat
  | .table (.open_ (.ok (_, file))) => Function.update s.pos file 0
  | .table _ => s.pos
  | .read a => moveFile s (readFd s.machine) (· + a.consumed)
  | .write n => moveFile s (writeFd s.machine) (· + n.getD 0)
  | .seek p => moveFile s (sourceFd s.machine) (p.getD ·)

/-- The state after a call, and its carry flag. -/
def HandleCall.next (s : FileHost) (c : HandleCall) : FileHost × Bool :=
  (⟨(c.serve s.machine).1, c.positions s⟩, (c.serve s.machine).2)

/-- The handle a call names: its target, for AH=46. -/
def HandleCall.names (m : Machine) : HandleCall → Nat
  | .table (.forceDup _) => m.cx
  | _ => m.bx

inductive HandleEvent where
  | guest (cpu : Cpu) (mem : Mem)
  | call (c : HandleCall)

def handleStep (s : FileHost) (e : HandleEvent) (t : FileHost) : Prop :=
  t = match e with
    | .guest cpu mem => { s with machine := { s.machine with cpu := cpu, mem := mem } }
    | .call c => (c.next s).1

/-- The table after AH=46 has closed its target. -/
def closeTarget (m : Machine) : Machine :=
  match m.handles m.cx with
  | none => m
  | some fd => setHandle (setFd m fd none) m.cx none

/-- What the host promises: `open` and `dup` give a descriptor that is not in use, `open` a file of
    its own, and `dup` of a descriptor that is not open fails. -/
def Answers (m : Machine) : FileCall → Prop
  | .open_ (.ok (fd, file)) => m.fds fd = none ∧ ∀ fd', m.fds fd' ≠ some file
  | .dup (some fd) => m.fds fd = none ∧ ∀ src, sourceFd m = some src → m.fds src ≠ none
  | .forceDup (some fd) => (closeTarget m).fds fd = none ∧
      ∀ src, sourceFd m = some src → (closeTarget m).fds src ≠ none
  | _ => True

/-- The host keeps its promise, and AH=46 has a target in the table. -/
def InTable (s : FileHost) : HandleEvent → Prop
  | .call (.table c) => Answers s.machine c ∧
      ∀ a, c = .forceDup a → FIRST_FILE_HANDLE ≤ s.machine.cx ∧ s.machine.cx < MAX_HANDLES
  | _ => True

/-! ### The invariant -/

/-- With `start` the descriptors that were open before: every handle is from 5 to 19 and has an open
    descriptor of its own, and every descriptor opened since belongs to a handle. -/
structure TableOk (start : Nat → Option Nat) (m : Machine) : Prop where
  keys : ∀ h fd, m.handles h = some fd → FIRST_FILE_HANDLE ≤ h ∧ h < MAX_HANDLES
  opened : ∀ h fd, m.handles h = some fd → m.fds fd ≠ none
  own : ∀ h h' fd, m.handles h = some fd → m.handles h' = some fd → h = h'
  owned : ∀ fd, m.fds fd ≠ none → start fd = none → ∃ h, m.handles h = some fd
  later : ∀ h fd, m.handles h = some fd → start fd = none
  before : ∀ fd, start fd ≠ none → m.fds fd = start fd

variable {start : Nat → Option Nat} {m : Machine}

theorem TableOk.same {m' : Machine} (h : TableOk start m) (hh : m'.handles = m.handles)
    (hf : m'.fds = m.fds) : TableOk start m' := by
  constructor
  · rw [hh]
    exact h.keys
  · rw [hh, hf]
    exact h.opened
  · rw [hh]
    exact h.own
  · rw [hh, hf]
    exact h.owned
  · rw [hh]
    exact h.later
  · rw [hf]
    exact h.before

/-- Every descriptor opened since has exactly one handle. -/
theorem TableOk.exactlyOne (h : TableOk start m) {fd : Nat} (hfd : m.fds fd ≠ none)
    (hs : start fd = none) : ∃! k, m.handles k = some fd := by
  obtain ⟨k, hk⟩ := h.owned fd hfd hs
  exact ⟨k, hk, fun k' hk' => h.own k' k fd hk' hk⟩

/-- A free handle gets a descriptor that was not in use. -/
theorem TableOk.give {k fd f : Nat} (h : TableOk start m) (hk : m.handles k = none)
    (hlow : FIRST_FILE_HANDLE ≤ k) (hhigh : k < MAX_HANDLES) (hfd : m.fds fd = none) :
    TableOk start (setHandle (setFd m fd (some f)) k (some fd)) := by
  have hstart : start fd = none := by
    by_contra hne
    exact hne ((h.before fd hne).symm.trans hfd)
  have hold : ∀ a b, Function.update m.handles k (some fd) a = some b →
      (a = k ∧ b = fd) ∨ (a ≠ k ∧ m.handles a = some b ∧ b ≠ fd) := by
    intro a b hab
    by_cases ha : a = k
    · rw [ha, Function.update_self] at hab
      exact Or.inl ⟨ha, (Option.some.inj hab).symm⟩
    · rw [Function.update_of_ne ha] at hab
      exact Or.inr ⟨ha, hab, fun hb => h.opened a b hab (hb ▸ hfd)⟩
  constructor
  · intro a b hab
    rcases hold a b hab with ⟨rfl, -⟩ | ⟨-, hab, -⟩
    · exact ⟨hlow, hhigh⟩
    · exact h.keys a b hab
  · intro a b hab
    rcases hold a b hab with ⟨-, rfl⟩ | ⟨-, hab, hb⟩
    · simp [setHandle, setFd]
    · simp only [setHandle, setFd, Function.update_of_ne hb]
      exact h.opened a b hab
  · intro a a' b hab hab'
    rcases hold a b hab with ⟨rfl, rfl⟩ | ⟨-, hab, hb⟩
    · rcases hold a' b hab' with ⟨rfl, -⟩ | ⟨-, -, hb'⟩
      · rfl
      · exact absurd rfl hb'
    · rcases hold a' b hab' with ⟨-, rfl⟩ | ⟨-, hab', -⟩
      · exact absurd rfl hb
      · exact h.own a a' b hab hab'
  · intro b hb hs
    by_cases hbf : b = fd
    · exact ⟨k, by rw [hbf]; exact Function.update_self _ _ _⟩
    · simp only [setHandle, setFd, Function.update_of_ne hbf] at hb
      obtain ⟨a, ha⟩ := h.owned b hb hs
      refine ⟨a, (Function.update_of_ne (fun hak => ?_) _ _).trans ha⟩
      rw [hak, hk] at ha
      cases ha
  · intro a b hab
    rcases hold a b hab with ⟨-, rfl⟩ | ⟨-, hab, -⟩
    · exact hstart
    · exact h.later a b hab
  · intro b hb
    have hbf : b ≠ fd := fun hbf => hb (hbf ▸ hstart)
    simp only [setHandle, setFd, Function.update_of_ne hbf]
    exact h.before b hb

/-- A handle is dropped with its descriptor. -/
theorem TableOk.drop {k fd : Nat} (h : TableOk start m) (hk : m.handles k = some fd) :
    TableOk start (setHandle (setFd m fd none) k none) := by
  have hold : ∀ a b, Function.update m.handles k none a = some b →
      a ≠ k ∧ m.handles a = some b ∧ b ≠ fd := by
    intro a b hab
    by_cases ha : a = k
    · rw [ha, Function.update_self] at hab
      cases hab
    · rw [Function.update_of_ne ha] at hab
      exact ⟨ha, hab, fun hb => ha (h.own a k fd (hb ▸ hab) hk)⟩
  constructor
  · intro a b hab
    exact h.keys a b (hold a b hab).2.1
  · intro a b hab
    obtain ⟨-, hab, hb⟩ := hold a b hab
    simp only [setHandle, setFd, Function.update_of_ne hb]
    exact h.opened a b hab
  · intro a a' b hab hab'
    exact h.own a a' b (hold a b hab).2.1 (hold a' b hab').2.1
  · intro b hb hs
    have hbf : b ≠ fd := by
      rintro rfl
      simp [setHandle, setFd] at hb
    simp only [setHandle, setFd, Function.update_of_ne hbf] at hb
    obtain ⟨a, ha⟩ := h.owned b hb hs
    refine ⟨a, (Function.update_of_ne (fun hak => ?_) _ _).trans ha⟩
    rw [hak, hk] at ha
    exact hbf (Option.some.inj ha).symm
  · intro a b hab
    exact h.later a b (hold a b hab).2.1
  · intro b hb
    have hbf : b ≠ fd := fun hbf => hb (hbf ▸ h.later k fd hk)
    simp only [setHandle, setFd, Function.update_of_ne hbf]
    exact h.before b hb

/-- The open file of every handle but `k` is what it was. -/
def OthersKept (k : Nat) (m m' : Machine) : Prop :=
  ∀ h fd, h ≠ k → m.handles h = some fd → m'.handles h = some fd ∧ m'.fds fd = m.fds fd

theorem OthersKept.same {k : Nat} {m' : Machine} (hh : m'.handles = m.handles) (hf : m'.fds = m.fds) :
    OthersKept k m m' := fun h fd _ hm => ⟨by rw [hh]; exact hm, by rw [hf]⟩

theorem allocateHandle_spec {h : Nat} (ha : allocateHandle m = some h) :
    m.handles h = none ∧ FIRST_FILE_HANDLE ≤ h ∧ h < MAX_HANDLES := by
  have hfree := List.find?_some ha
  have hmem := List.mem_range'.mp (List.mem_of_find?_eq_some ha)
  obtain ⟨i, hi, rfl⟩ := hmem
  refine ⟨Option.isNone_iff_eq_none.mp hfree, Nat.le_add_right _ _, ?_⟩
  simp only [FIRST_FILE_HANDLE, MAX_HANDLES] at hi ⊢
  omega

/-- Giving a handle to a descriptor just opened, or closing the descriptor again. -/
theorem giveHandle_spec {fd f : Nat} (h : TableOk start m) (hfd : m.fds fd = none) (k : Nat) :
    TableOk start (giveHandle (setFd m fd (some f)) fd).1 ∧
      OthersKept k m (giveHandle (setFd m fd (some f)) fd).1 ∧
      ((giveHandle (setFd m fd (some f)) fd).2 = true →
        (giveHandle (setFd m fd (some f)) fd).1.handles = m.handles ∧
          (giveHandle (setFd m fd (some f)) fd).1.fds = m.fds) := by
  unfold giveHandle
  have halloc : allocateHandle (setFd m fd (some f)) = allocateHandle m := rfl
  rw [halloc]
  cases ha : allocateHandle m with
  | none =>
    have hfds : (failWith (setFd (setFd m fd (some f)) fd none) 0x04).1.fds = m.fds := by
      show Function.update (Function.update m.fds fd (some f)) fd none = m.fds
      rw [Function.update_idem, ← hfd, Function.update_eq_self]
    exact ⟨h.same rfl hfds, .same rfl hfds, fun _ => ⟨rfl, hfds⟩⟩
  | some a =>
    obtain ⟨hfree, hlow, hhigh⟩ := allocateHandle_spec ha
    refine ⟨(h.give hfree hlow hhigh hfd).same rfl rfl, fun b c _ hbc => ?_, fun hf => by cases hf⟩
    constructor
    · refine (Function.update_of_ne (fun hba => ?_) _ _).trans hbc
      rw [hba, hfree] at hbc
      cases hbc
    · refine Function.update_of_ne (fun hcf => ?_) _ _
      exact h.opened b c hbc (hcf ▸ hfd)

theorem drop_othersKept {k fd : Nat} (h : TableOk start m) (hk : m.handles k = some fd) :
    OthersKept k m (setHandle (setFd m fd none) k none) := by
  intro b c hb hbc
  constructor
  · exact (Function.update_of_ne hb _ _).trans hbc
  · refine Function.update_of_ne (fun hcf => ?_) _ _
    exact hb (h.own b k fd (hcf ▸ hbc) hk)

theorem closeTarget_spec (h : TableOk start m) :
    TableOk start (closeTarget m) ∧ OthersKept m.cx m (closeTarget m) ∧
      (closeTarget m).handles m.cx = none := by
  unfold closeTarget
  cases hcx : m.handles m.cx with
  | none => exact ⟨h, .same rfl rfl, hcx⟩
  | some fd => exact ⟨h.drop hcx, drop_othersKept h hcx, Function.update_self _ _ _⟩

/-- What a call of the table leaves: the invariant, the files of the other handles, and the whole
    table where it fails, unless it is AH=46. -/
structure CallKeeps (start : Nat → Option Nat) (m : Machine) (k : Nat) (force : Prop)
    (r : Machine × Bool) : Prop where
  ok : TableOk start r.1
  others : OthersKept k m r.1
  failed : ¬ force → r.2 = true → r.1.handles = m.handles ∧ r.1.fds = m.fds

theorem CallKeeps.same {k : Nat} {force : Prop} {r : Machine × Bool} (h : TableOk start m)
    (hh : r.1.handles = m.handles) (hf : r.1.fds = m.fds) : CallKeeps start m k force r :=
  ⟨h.same hh hf, .same hh hf, fun _ _ => ⟨hh, hf⟩⟩

theorem openHandle_keeps (h : TableOk start m) {opened : Except Nat (Nat × Nat)}
    (ha : Answers m (.open_ opened)) (k : Nat) : CallKeeps start m k False (openHandle m opened) := by
  unfold openHandle
  match opened, ha with
  | .error code, _ => exact .same h rfl rfl
  | .ok (fd, file), ha =>
    obtain ⟨hok, hothers, hfail⟩ := giveHandle_spec (f := file) h ha.1 k
    exact ⟨hok, hothers, fun _ => hfail⟩

theorem int21_3E_keeps (h : TableOk start m) : CallKeeps start m m.bx False (int21_3E m) := by
  unfold int21_3E
  split
  · exact .same h rfl rfl
  · cases hbx : m.handles m.bx with
    | none => exact .same h rfl rfl
    | some fd => exact ⟨h.drop hbx, drop_othersKept h hbx, fun _ hf => by cases hf⟩

theorem int21_45_keeps (h : TableOk start m) {dup : Option Nat} (ha : Answers m (.dup dup)) (k : Nat) :
    CallKeeps start m k False (int21_45 m dup) := by
  unfold int21_45
  cases hsrc : sourceFd m with
  | none => exact .same h rfl rfl
  | some src =>
    cases dup with
    | none => exact .same h rfl rfl
    | some fd =>
      obtain ⟨f, hf⟩ := Option.ne_none_iff_exists'.mp (ha.2 src hsrc)
      dsimp only
      rw [hf]
      obtain ⟨hok, hothers, hfail⟩ := giveHandle_spec (f := f) h ha.1 k
      exact ⟨hok, hothers, fun _ => hfail⟩

/-- AH=46 with a target in the table closes it first. -/
theorem int21_46_eq {src : Nat} (hsrc : sourceFd m = some src) (hcx : ¬ m.cx ≤ 4) (dup : Option Nat) :
    int21_46 m dup = match dup with
      | none => failWith (closeTarget m) 0x04
      | some fd => (setHandle (setFd (closeTarget m) fd ((closeTarget m).fds src)) m.cx (some fd),
          false) := by
  unfold int21_46
  rw [hsrc]
  dsimp only
  rw [if_neg hcx]
  rfl

theorem int21_46_keeps (h : TableOk start m) {dup : Option Nat} (ha : Answers m (.forceDup dup))
    (hlow : FIRST_FILE_HANDLE ≤ m.cx) (hhigh : m.cx < MAX_HANDLES) :
    CallKeeps start m m.cx True (int21_46 m dup) ∧ ((int21_46 m dup).2 = false →
      fileOf (int21_46 m dup).1 m.cx = (sourceFd m).bind m.fds ∧
        fileOf (int21_46 m dup).1 m.cx ≠ none) := by
  have hcx : ¬ m.cx ≤ 4 := Nat.not_le.mpr hlow
  cases hsrc : sourceFd m with
  | none =>
    have heq : int21_46 m dup = failWith m 0x06 := by
      unfold int21_46
      rw [hsrc]
    rw [heq]
    exact ⟨.same h rfl rfl, fun hf => by cases hf⟩
  | some src =>
    obtain ⟨hok, hothers, hfree⟩ := closeTarget_spec h
    rw [int21_46_eq hsrc hcx]
    cases dup with
    | none => exact ⟨⟨hok.same rfl rfl, hothers, fun hn => absurd trivial hn⟩, fun hf => by cases hf⟩
    | some fd =>
      obtain ⟨hfd, hopen⟩ := ha
      obtain ⟨f, hf⟩ := Option.ne_none_iff_exists'.mp (hopen src hsrc)
      dsimp only
      rw [hf]
      have hgive := hok.give hfree hlow hhigh (f := f) hfd
      have hfile : fileOf (setHandle (setFd (closeTarget m) fd (some f)) m.cx (some fd)) m.cx = some f := by
        simp only [fileOf, if_neg hcx, setHandle, setFd, Function.update_self, Option.bind_some]
      -- the source was not closed with the target
      have hkept : m.fds src = some f := by
        unfold closeTarget at hf
        split at hf
        · exact hf
        · rename_i fd' _
          by_cases hs : src = fd'
          · simp [setHandle, setFd, hs] at hf
          · simpa only [setHandle, setFd, Function.update_of_ne hs] using hf
      refine ⟨⟨hgive, fun b c hb hbc => ?_, fun hn => absurd trivial hn⟩, fun _ => ?_⟩
      · obtain ⟨hh, hfds⟩ := hothers b c hb hbc
        refine ⟨(Function.update_of_ne hb _ _).trans hh, ?_⟩
        refine (Function.update_of_ne (fun hcf => ?_) _ _).trans hfds
        exact hok.opened b c hh (hcf ▸ hfd)
      · rw [hfile, Option.bind_some, hkept]
        exact ⟨rfl, Option.some_ne_none f⟩

/-! ### Every call -/

/-- A call of the host keeps its promise: the invariant, the other handles, and their positions
    where they do not share the open file of the handle named. -/
structure Kept (start : Nat → Option Nat) (s : FileHost) (c : HandleCall) : Prop where
  table : CallKeeps start s.machine (c.names s.machine) (∃ a, c = .table (.forceDup a))
    (c.serve s.machine)
  positions : ∀ h fd f, h ≠ c.names s.machine → s.machine.handles h = some fd →
    s.machine.fds fd = some f → fileOf s.machine (c.names s.machine) ≠ some f → c.positions s f = s.pos f
  target : ∀ a, c = .table (.forceDup a) → (c.serve s.machine).2 = false →
    fileOf (c.serve s.machine).1 s.machine.cx = fileOf s.machine s.machine.bx ∧
      fileOf (c.serve s.machine).1 s.machine.cx ≠ none

/-- Only the open file behind `fd` is moved. -/
theorem moveFile_of_ne {s : FileHost} {fd : Option Nat} {move : Nat → Nat} {f : Nat}
    (h : fileAt s.machine fd ≠ some f) : moveFile s fd move f = s.pos f := by
  unfold moveFile
  cases hfile : fileAt s.machine fd with
  | none => rfl
  | some g =>
    refine Function.update_of_ne (fun hfg => ?_) _ _
    exact h (by rw [hfile, hfg])

/-- In the table only handles from 5 on have an entry: AH=3F and AH=40 use the file of BX, or fail. -/
theorem fileAt_ne_of_keys {fd : Option Nat} {f : Nat} (h : TableOk start m)
    (hfd : fd = some m.bx ∧ m.bx ≤ 4 ∨ fd = m.handles m.bx) (hf : fileOf m m.bx ≠ some f) :
    fileAt m fd ≠ some f := by
  unfold fileOf at hf
  rcases hfd with ⟨rfl, hle⟩ | rfl
  · rwa [if_pos hle] at hf
  · by_cases hle : m.bx ≤ 4
    · cases hbx : m.handles m.bx with
      | none => exact fun h0 => by cases h0
      | some fd =>
        have hlow := (h.keys _ _ hbx).1
        simp only [FIRST_FILE_HANDLE] at hlow
        omega
    · rwa [if_neg hle] at hf

theorem setCount_same (m : Machine) (n : Nat) :
    (setCount m n).handles = m.handles ∧ (setCount m n).fds = m.fds := by
  unfold setCount
  split <;> exact ⟨rfl, rfl⟩

theorem int21_3F_same (m : Machine) (a : ReadAnswer) :
    (int21_3F m a).1.handles = m.handles ∧ (int21_3F m a).1.fds = m.fds := by
  unfold int21_3F
  split
  · exact ⟨rfl, rfl⟩
  · dsimp only
    split
    · exact ⟨rfl, rfl⟩
    · exact setCount_same _ _

theorem int21_40_same (m : Machine) (n : Option Nat) :
    (int21_40 m n).1.handles = m.handles ∧ (int21_40 m n).1.fds = m.fds := by
  unfold int21_40
  split
  · exact ⟨rfl, rfl⟩
  · split
    · exact ⟨rfl, rfl⟩
    · exact setCount_same _ _

theorem int21_42_same (m : Machine) (p : Option Nat) :
    (int21_42 m p).1.handles = m.handles ∧ (int21_42 m p).1.fds = m.fds := by
  unfold int21_42
  split
  · exact ⟨rfl, rfl⟩
  · split
    · exact ⟨rfl, rfl⟩
    · split <;> exact ⟨rfl, rfl⟩

theorem Kept.moves {s : FileHost} {c : HandleCall} (fd : Option Nat) (move : Nat → Nat)
    (h : TableOk start s.machine) (hsame : (c.serve s.machine).1.handles = s.machine.handles ∧
      (c.serve s.machine).1.fds = s.machine.fds) (hname : c.names s.machine = s.machine.bx)
    (hpos : c.positions s = moveFile s fd move) (hforce : ∀ a, c ≠ .table (.forceDup a))
    (hfd : fd = some s.machine.bx ∧ s.machine.bx ≤ 4 ∨ fd = s.machine.handles s.machine.bx) :
    Kept start s c where
  table := .same h hsame.1 hsame.2
  positions _ _ f _ _ _ hf := by
    rw [hname] at hf
    rw [hpos]
    exact moveFile_of_ne (fileAt_ne_of_keys h hfd hf)
  target a ha := absurd ha (hforce a)

theorem call_kept {s : FileHost} {c : HandleCall} (h : TableOk start s.machine)
    (hc : InTable s (.call c)) : Kept start s c := by
  cases c with
  | read a =>
    refine .moves (readFd s.machine) (· + a.consumed) h (int21_3F_same _ a) rfl rfl (fun _ hx => by cases hx) ?_
    unfold readFd
    split
    · rename_i h0
      exact Or.inl ⟨by rw [h0], by omega⟩
    · exact Or.inr rfl
  | write n =>
    refine .moves (writeFd s.machine) (· + n.getD 0) h (int21_40_same _ n) rfl rfl (fun _ hx => by cases hx) ?_
    unfold writeFd
    split
    · rename_i h1
      exact Or.inl ⟨by rw [h1], by omega⟩
    · split
      · rename_i h2
        exact Or.inl ⟨by rw [h2], by omega⟩
      · exact Or.inr rfl
  | seek p =>
    refine .moves (sourceFd s.machine) (p.getD ·) h (int21_42_same _ p) rfl rfl (fun _ hx => by cases hx) ?_
    unfold sourceFd
    split
    · rename_i hle
      exact Or.inl ⟨rfl, hle⟩
    · exact Or.inr rfl
  | table c =>
    obtain ⟨ha, htarget⟩ := hc
    cases c with
    | open_ opened =>
      obtain ⟨hok, hothers, hfail⟩ := openHandle_keeps h ha s.machine.bx
      refine ⟨⟨hok, hothers, fun _ => hfail id⟩, fun k fd f _ hk hf _ => ?_, fun _ hx => by cases hx⟩
      match opened, ha with
      | .error _, _ => rfl
      | .ok (_, file), ha =>
        refine Function.update_of_ne (fun hff => ?_) _ _
        exact ha.2 fd (hff ▸ hf)
    | close =>
      obtain ⟨hok, hothers, hfail⟩ := int21_3E_keeps h
      exact ⟨⟨hok, hothers, fun _ => hfail id⟩, fun _ _ _ _ _ _ _ => rfl, fun _ hx => by cases hx⟩
    | dup a =>
      obtain ⟨hok, hothers, hfail⟩ := int21_45_keeps h ha s.machine.bx
      exact ⟨⟨hok, hothers, fun _ => hfail id⟩, fun _ _ _ _ _ _ _ => rfl, fun _ hx => by cases hx⟩
    | forceDup a =>
      obtain ⟨hlow, hhigh⟩ := htarget a rfl
      obtain ⟨⟨hok, hothers, -⟩, hfile⟩ := int21_46_keeps h ha hlow hhigh
      exact ⟨⟨hok, hothers, fun hn => absurd ⟨a, rfl⟩ hn⟩, fun _ _ _ _ _ _ _ => rfl,
        fun _ _ hf => hfile hf⟩

/-- **The handle table.**  In every state of a run the handles are in order, and every further call
    keeps them so, leaves the files of the other handles, and their positions but for those of the
    file it names, changes nothing where it fails (unless it is AH=46), and AH=46 gives its target the
    file of its source. -/
theorem handleCalls_keep_table {s₀ s : FileHost} {es : List HandleEvent}
    (h₀ : ∀ h, s₀.machine.handles h = none) (hrun : Guarded handleStep InTable s₀ es s) :
    TableOk s₀.machine.fds s.machine ∧
      (∀ fd, s.machine.fds fd ≠ none → s₀.machine.fds fd = none →
        ∃! k, s.machine.handles k = some fd) ∧
      ∀ c, InTable s (.call c) → Kept s₀.machine.fds s c := by
  have hstart : TableOk s₀.machine.fds s₀.machine := by
    constructor
    · intro h fd hfd
      rw [h₀] at hfd
      cases hfd
    · intro h fd hfd
      rw [h₀] at hfd
      cases hfd
    · intro h h' fd hfd
      rw [h₀] at hfd
      cases hfd
    · intro fd hne hnone
      exact absurd hnone hne
    · intro h fd hfd
      rw [h₀] at hfd
      cases hfd
    · intro fd _
      rfl
  have hok : TableOk s₀.machine.fds s.machine := by
    refine hrun.invariant (P := fun s => TableOk s₀.machine.fds s.machine) ?_ hstart
    intro s e t h hg hs
    cases e with
    | guest cpu mem =>
      obtain rfl := hs
      exact h.same rfl rfl
    | call c =>
      obtain rfl := hs
      exact (call_kept h hg).table.ok
  exact ⟨hok, fun fd => hok.exactlyOne, fun c hc => call_kept hok hc⟩

/-! ### A file with two handles -/

def bxCpu (bx : BitVec 32) : Cpu := { zeroCpu with regs := Function.update zeroCpu.regs .ebx bx }

def started : FileHost := ⟨bootMachine, fun _ => 0⟩

/-- File 100 has been opened as descriptor 7: it is handle 5, which BX names. -/
def opened : FileHost :=
  let s := (HandleCall.next started (.table (.open_ (.ok (7, 100))))).1
  { s with machine := { s.machine with cpu := bxCpu 5 } }

/-- AH=45 has given it the second handle 6, which BX names. -/
def doubled : FileHost :=
  let s := (HandleCall.next opened (.table (.dup (some 8)))).1
  { s with machine := { s.machine with cpu := bxCpu 6 } }

theorem open_answered : Answers bootMachine (.open_ (.ok (7, 100))) := by
  refine ⟨rfl, fun fd' => ?_⟩
  by_cases h : fd' ≤ 2
  · simp only [bootMachine, if_pos h]
    intro hfd
    cases Option.some.inj hfd
    omega
  · simp only [bootMachine, if_neg h]
    exact nofun

theorem dup_answered : Answers opened.machine (.dup (some 8)) := by
  refine ⟨rfl, fun src hsrc => ?_⟩
  obtain rfl : 7 = src := Option.some.inj ((by decide +kernel : sourceFd opened.machine = some 7).symm.trans hsrc)
  decide +kernel

theorem run_doubled : Guarded handleStep InTable started [.call (.table (.open_ (.ok (7, 100)))),
    .guest (bxCpu 5) opened.machine.mem, .call (.table (.dup (some 8))),
    .guest (bxCpu 6) doubled.machine.mem] doubled := by
  refine .cons ⟨open_answered, fun _ h => by cases h⟩ rfl ?_
  refine .cons (t := opened) trivial rfl ?_
  refine .cons ⟨dup_answered, fun _ h => by cases h⟩ rfl ?_
  exact .cons (t := doubled) trivial rfl (.nil _)

theorem handleCalls_keep_table_doubled :
    TableOk bootMachine.fds doubled.machine ∧
      (∀ fd, doubled.machine.fds fd ≠ none → bootMachine.fds fd = none →
        ∃! k, doubled.machine.handles k = some fd) ∧
      ∀ c, InTable doubled (.call c) → Kept bootMachine.fds doubled c := by
  have h₀ : ∀ h, started.machine.handles h = none := fun _ => rfl
  exact handleCalls_keep_table h₀ run_doubled

/-- The handle that AH=45 gives denotes the position of the first: a seek moves both. -/
theorem seek_moves_double : ¬ ∀ s es t c, s.machine.handles = (fun _ => none) →
    Guarded handleStep InTable s es t → InTable t (.call c) → ∀ h f, h ≠ c.names t.machine →
      fileOf t.machine h = some f → c.positions t f = t.pos f := by
  intro h
  have hpos := h started _ doubled (.seek (some 10)) rfl run_doubled trivial 5 100
    (by decide +kernel) (by decide +kernel)
  exact absurd hpos (by decide +kernel)

end Dosiz.FileHandles
