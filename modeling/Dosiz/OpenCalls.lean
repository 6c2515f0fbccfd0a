/-
  Dosiz/OpenCalls.lean
  ====================
  **Three ways to a handle** (INT 21h AH=3C, 3D and 6C of `bridge.cc`).

  AH=3D asks first whether the path names a character device, and refuses a directory.  AH=3C and AH=6C hand the
  path to the host's `open` whatever it names: a device's name is a file to them, and AH=6C gives a handle for a
  directory that it opens for reading.  `openCall_right_iff` has the exact cases.
-/
import Dosiz.HostPath
import Dosiz.Handles

namespace Dosiz.OpenCalls

open HostPath Machine

/-! ### The host's `open` -/

inductive Access where
  | rdonly
  | wronly
  | rdwr
  deriving DecidableEq

structure OpenFlags where
  access : Access
  creat : Bool
  trunc : Bool
  deriving DecidableEq

inductive NodeKind where
  | dir
  | other
  deriving DecidableEq

/-- What the host answers: what a path names, and what `open` gives for it and for `/dev/null`, a new descriptor
    and its file.  A directory is opened for nothing but reading. -/
structure OpenHost where
  kind : Str → Option NodeKind
  open_ : Str → OpenFlags → Option (Nat × Nat)
  null : Option (Nat × Nat)
  readOnly : ∀ path flags, kind path = some .dir → (open_ path flags).isSome → flags = ⟨.rdonly, false, false⟩

/-- A call of `open`. -/
inductive Opening where
  | nullDevice
  | hostFile (path : Str) (flags : OpenFlags)
  deriving DecidableEq

def orError (code : Nat) : Option (Nat × Nat) → Except Nat (Nat × Nat)
  | none => .error code
  | some opened => .ok opened

/-! ### The calls -/

/-- The access mode in the low three bits of AL or BX. -/
def accessMode (n : Nat) : Access :=
  match n % 8 with
  | 1 => .wronly
  | 2 => .rdwr
  | _ => .rdonly

section Calls

variable (cfg : PathConfig) (tree : HostTree) (host : OpenHost) (m : Machine) (p : Str)

/-- AH=3C -/
def int21_3C : List Opening × (Machine × Bool) :=
  let path := (resolvePath cfg tree p).hostPath
  let flags : OpenFlags := ⟨.rdwr, true, true⟩
  ([.hostFile path flags], openHandle m (orError 0x05 (host.open_ path flags)))

/-- AH=3D -/
def int21_3D (al : Nat) : List Opening × (Machine × Bool) :=
  if isCharDev p then ([.nullDevice], openHandle m (orError 0x02 host.null))
  else
    let path := (resolvePath cfg tree p).hostPath
    let flags : OpenFlags := ⟨accessMode al, false, false⟩
    let opened := orError 0x02 (host.open_ path flags)
    ([.hostFile path flags],
      openHandle m (if opened.isOk ∧ host.kind path = some .dir then .error 0x05 else opened))

/-- AH=6C; CX has what it came to: 1 opened, 2 created, 3 truncated. -/
def int21_6C (bx action : Nat) : List Opening × (Machine × Bool) :=
  let path := (resolvePath cfg tree p).hostPath
  let exists_ := (host.kind path).isSome
  let openExisting := action.testBit 0
  let truncateExisting := action.testBit 1
  let createNew := action.testBit 4
  if exists_ && !openExisting && !truncateExisting then ([], failWith m 0x50)
  else if !exists_ && !createNew then ([], failWith m 0x02)
  else
    let flags : OpenFlags := ⟨accessMode bx, !exists_, exists_ && truncateExisting⟩
    let actionTaken := if !exists_ then 2 else if truncateExisting then 3 else 1
    let r := openHandle m (orError 0x05 (host.open_ path flags))
    ([.hostFile path flags], if r.2 then r else (r.1.setR16 .ecx actionTaken, false))

end Calls

inductive OpenCall where
  | create
  | open_ (al : Nat)
  | extended (bx action : Nat)

def OpenCall.serve (cfg : PathConfig) (tree : HostTree) (host : OpenHost) (m : Machine) (p : Str) :
    OpenCall → List Opening × (Machine × Bool)
  | .create => int21_3C cfg tree host m p
  | .open_ al => int21_3D cfg tree host m p al
  | .extended bx action => int21_6C cfg tree host m p bx action

/-! ### What a call is to do -/

/-- A device's name gives a handle for the device, and no file of the host is opened; a directory of the host is
    refused, and no handle is taken. -/
structure CallRight (cfg : PathConfig) (tree : HostTree) (host : OpenHost) (m : Machine) (p : Str) (call : OpenCall) :
    Prop where
  device : isCharDev p = true →
    call.serve cfg tree host m p = ([.nullDevice], openHandle m (orError 0x02 host.null))
  directory : isCharDev p = false → host.kind (resolvePath cfg tree p).hostPath = some .dir →
    (call.serve cfg tree host m p).2.2 = true ∧ (call.serve cfg tree host m p).2.1.handles = m.handles

/-- AH=6C opens the directory at `path` for reading, and gives it a handle. -/
structure DirectoryOpened (host : OpenHost) (m : Machine) (path : Str) (bx action : Nat) : Prop where
  directory : host.kind path = some .dir
  openExisting : action.testBit 0 = true
  keep : action.testBit 1 = false
  reads : accessMode bx = .rdonly
  opens : (host.open_ path ⟨.rdonly, false, false⟩).isSome
  handle : (allocateHandle m).isSome

/-- Where the call does what it is to do. -/
def Careful (cfg : PathConfig) (tree : HostTree) (host : OpenHost) (m : Machine) (p : Str) : OpenCall → Prop
  | .create => isCharDev p = false
  | .open_ _ => True
  | .extended bx action =>
    isCharDev p = false ∧ ¬ DirectoryOpened host m (resolvePath cfg tree p).hostPath bx action

section Right

variable {cfg : PathConfig} {tree : HostTree} {host : OpenHost} {m : Machine} {p : Str}

/-- Without a descriptor no handle is taken. -/
theorem openHandle_error (m : Machine) (code : Nat) :
    (openHandle m (.error code)).2 = true ∧ (openHandle m (.error code)).1.handles = m.handles := ⟨rfl, rfl⟩

/-- A descriptor gets a handle if one is free. -/
theorem openHandle_ok (m : Machine) (fd file : Nat) :
    (openHandle m (.ok (fd, file))).2 = (allocateHandle m).isNone ∧
      (allocateHandle m = none → (openHandle m (.ok (fd, file))).1.handles = m.handles) := by
  have hsame : allocateHandle (setFd m fd (some file)) = allocateHandle m := rfl
  simp only [openHandle, giveHandle, hsame]
  cases allocateHandle m with
  | none => exact ⟨rfl, fun _ => rfl⟩
  | some h => exact ⟨rfl, fun h => by cases h⟩

theorem create_right : CallRight cfg tree host m p .create ↔ isCharDev p = false := by
  constructor
  · intro h
    by_contra hdev
    have hopened := congrArg Prod.fst (h.device (Bool.eq_true_of_not_eq_false hdev))
    cases hopened
  · intro hdev
    refine ⟨fun h => absurd (hdev.symm.trans h) Bool.false_ne_true, fun _ hdir => ?_⟩
    have hnone : host.open_ (resolvePath cfg tree p).hostPath ⟨.rdwr, true, true⟩ = none := by
      by_contra hsome
      have hflags := host.readOnly _ _ hdir (Option.ne_none_iff_isSome.mp hsome)
      cases hflags
    show (openHandle m (orError 0x05 _)).2 = true ∧ (openHandle m (orError 0x05 _)).1.handles = m.handles
    rw [hnone]
    exact openHandle_error m 0x05

theorem open_right (al : Nat) : CallRight cfg tree host m p (.open_ al) := by
  constructor
  · intro hdev
    show int21_3D cfg tree host m p al = _
    rw [int21_3D, if_pos hdev]
  · intro hdev hdir
    show (int21_3D cfg tree host m p al).2.2 = true ∧ (int21_3D cfg tree host m p al).2.1.handles = m.handles
    rw [int21_3D, if_neg (by rw [hdev]; exact Bool.false_ne_true)]
    dsimp only
    cases hopen : host.open_ (resolvePath cfg tree p).hostPath ⟨accessMode al, false, false⟩ with
    | none =>
      rw [if_neg fun h => absurd h.1 (by simp [orError, Except.isOk, Except.toBool])]
      exact openHandle_error m 0x02
    | some opened =>
      rw [if_pos ⟨rfl, hdir⟩]
      exact openHandle_error m 0x05

/-- AH=6C asks the host for a file, or for nothing. -/
theorem extended_openings (bx action : Nat) : (int21_6C cfg tree host m p bx action).1 ≠ [.nullDevice] := by
  unfold int21_6C
  dsimp only
  split
  · exact fun h => by cases h
  · split
    · exact fun h => by cases h
    · exact fun h => by cases h

/-- AH=6C on a directory. -/
theorem extended_directory {bx action : Nat} (hdir : host.kind (resolvePath cfg tree p).hostPath = some .dir) :
    (int21_6C cfg tree host m p bx action).2 =
      if action.testBit 0 = false ∧ action.testBit 1 = false then failWith m 0x50
      else
        let r := openHandle m (orError 0x05 (host.open_ (resolvePath cfg tree p).hostPath
          ⟨accessMode bx, false, action.testBit 1⟩))
        if r.2 then r else (r.1.setR16 .ecx (if action.testBit 1 then 3 else 1), false) := by
  unfold int21_6C
  dsimp only
  rw [hdir]
  cases action.testBit 0 <;> cases action.testBit 1 <;> rfl

theorem extended_right (bx action : Nat) : CallRight cfg tree host m p (.extended bx action) ↔
    isCharDev p = false ∧ ¬ DirectoryOpened host m (resolvePath cfg tree p).hostPath bx action := by
  constructor
  · intro h
    have hdev : isCharDev p = false := by
      by_contra hdev
      exact extended_openings bx action (congrArg Prod.fst (h.device (Bool.eq_true_of_not_eq_false hdev)))
    refine ⟨hdev, fun hopened => ?_⟩
    have hrefused : (int21_6C cfg tree host m p bx action).2.2 = true := (h.directory hdev hopened.directory).1
    obtain ⟨⟨fd, file⟩, hsome⟩ := Option.isSome_iff_exists.mp hopened.opens
    rw [extended_directory hopened.directory, hopened.openExisting, hopened.keep, hopened.reads, hsome,
      if_neg (by decide)] at hrefused
    have hgiven : (openHandle m (.ok (fd, file))).2 = false := by
      rw [(openHandle_ok m fd file).1]
      exact Option.isNone_eq_false_iff.mpr hopened.handle
    simp only [orError, hgiven] at hrefused
    rw [if_neg Bool.false_ne_true] at hrefused
    cases hrefused
  · rintro ⟨hdev, hnot⟩
    refine ⟨fun h => absurd (hdev.symm.trans h) Bool.false_ne_true, fun _ hdir => ?_⟩
    show (int21_6C cfg tree host m p bx action).2.2 = true ∧ (int21_6C cfg tree host m p bx action).2.1.handles = m.handles
    rw [extended_directory hdir]
    by_cases hnone : action.testBit 0 = false ∧ action.testBit 1 = false
    · rw [if_pos hnone]
      exact ⟨rfl, rfl⟩
    · rw [if_neg hnone]
      dsimp only
      cases hopen : host.open_ (resolvePath cfg tree p).hostPath ⟨accessMode bx, false, action.testBit 1⟩ with
      | none => exact ⟨rfl, rfl⟩
      | some opened =>
        -- the host opened the directory, so only to read it, and no handle was free
        obtain ⟨fd, file⟩ := opened
        have hflags := host.readOnly _ _ hdir (by rw [hopen]; rfl)
        obtain ⟨haccess, -, hkeep⟩ := OpenFlags.mk.inj hflags
        have hfull : allocateHandle m = none := by
          by_contra hfree
          refine hnot ⟨hdir, ?_, hkeep, haccess, ?_, Option.ne_none_iff_isSome.mp hfree⟩
          · exact Bool.eq_true_of_not_eq_false fun h => hnone ⟨h, hkeep⟩
          · rw [← hflags, hopen]
            rfl
        obtain ⟨hcf, hsame⟩ := openHandle_ok m fd file
        rw [hfull] at hcf
        have hrefused : (openHandle m (orError 0x05 (some (fd, file)))).2 = true := hcf
        rw [if_pos hrefused]
        exact ⟨hrefused, hsame hfull⟩

end Right

/-- **Three ways to a handle.**  A call takes a device's name for the device and refuses a directory exactly as
    follows: AH=3D always, AH=3C if the path is no device's name, AH=6C if moreover it opens no directory for
    reading. -/
theorem openCall_right_iff (cfg : PathConfig) (tree : HostTree) (host : OpenHost) (m : Machine) (p : Str)
    (call : OpenCall) : CallRight cfg tree host m p call ↔ Careful cfg tree host m p call := by
  cases call with
  | create => exact create_right
  | open_ al => exact iff_of_true (open_right al) trivial
  | extended bx action => exact extended_right bx action

/-- A host where every path names a directory, which can be read. -/
def allDirs : OpenHost where
  kind := fun _ => some .dir
  open_ := fun _ flags => if flags = ⟨.rdonly, false, false⟩ then some (3, 7) else none
  null := some (3, 8)
  readOnly := by
    intro _ flags _ hsome
    by_contra hne
    rw [if_neg hne] at hsome
    cases hsome

def driveC : PathConfig := ⟨⟨'C', fun d => if d = 'C' then some "/dos".toList else none⟩, [], .auto⟩

/-- AH=3C with `NUL` goes to the host's file of that name; AH=6C with DX=1 gives a handle for a directory. -/
theorem openCalls_wrong :
    ¬ CallRight driveC ⟨fun _ => false, fun _ => none⟩ allDirs bootMachine "NUL".toList .create ∧
      ¬ CallRight driveC ⟨fun _ => false, fun _ => none⟩ allDirs bootMachine "C:\\SUB".toList (.extended 0 1) := by
  constructor
  · intro h
    exact absurd (create_right.mp h) (by decide +kernel)
  · intro h
    refine ((extended_right 0 1).mp h).2 ⟨rfl, by decide, by decide, rfl, rfl, ?_⟩
    exact (by decide : (allocateHandle bootMachine).isSome = true)

end Dosiz.OpenCalls
