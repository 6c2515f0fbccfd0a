/-
  Dosiz/FileContents.lean
  =======================
  **What a program reads back of its files** (INT 21h AH=3C, 3D, 3E, 3F, 40, 42, 45, 46 and 6C of `bridge.cc`).

  AH=3F asks the host for block after block until the count is reached or the file is at its end, so it does not
  matter how the host splits them (`readBlocks_spec`).  Over whole runs (several handles of one open file, several
  open files of one file, text mode, seeks beyond the end, what the host did not take) each byte returned is the one
  written last at its place (`reads_last_written`).

  What the host answers is an argument of the call.  AH=46 has its target in the table, so no standard handle comes
  to denote a file, and a call on a standard handle or on a device counts as code of the guest.
-/
import Dosiz.Patches
import Dosiz.ShortWrites

namespace Dosiz.FileContents

open ByteMemory Machine Transition FileHandles TextRead ShortWrites Patches

/-! ### The block loop of AH=3F -/

/-- `sizeof(buf)` -/
def blockSize : Nat := 16384

/-- The host's `read` of at most `want` bytes where `left` lies ahead: an error, or some of them, and none only at
    the end. -/
def hostRead (answer : Option Nat) (want : Nat) (left : List UInt8) : Option (List UInt8) :=
  answer.map fun n => left.take (max 1 (min n want))

/-- The loop with room for `room` bytes: what it stores, and whether a `read` failed.  Every turn that goes on
    stores a byte, so it takes at most `room` turns. -/
def readBlocks : Nat → (Nat → Option Nat) → Nat → List UInt8 → List UInt8 × Bool
  | 0, _, _, _ => ([], false)
  | fuel + 1, answers, room, left =>
    if room = 0 then ([], false)
    else
      match hostRead (answers 0) (min room blockSize) left with
      | none => ([], true)
      | some [] => ([], false)
      | some got =>
        let r := readBlocks fuel (fun i => answers (i + 1)) (room - got.length) (left.drop got.length)
        (got ++ r.1, r.2)

/-! ### The files of the host -/

/-- The handles with the positions of their open files, the mode of each handle, the disk file of each open file
    (none where it is a device), and the bytes of the disk files. -/
structure Disk where
  host : FileHost
  mode : Nat → Bool
  inode : Nat → Option Nat
  data : Nat → List UInt8

namespace Disk

abbrev machine (s : Disk) : Machine := s.host.machine

/-- The open file of the handle BX. -/
def file (s : Disk) : Option Nat := fileOf s.machine s.machine.bx

/-- The disk file of the handle BX, and where its open file stands in it. -/
def place (s : Disk) : Option (Nat × Nat) := s.file.bind fun f => (s.inode f).map fun n => (n, s.host.pos f)

/-- The mode a second handle for BX gets. -/
def sourceMode (s : Disk) : Bool := if s.machine.bx ≤ 4 then false else s.mode s.machine.bx

/-- What the loop of AH=3F comes to. -/
def readAnswer (s : Disk) (answers : Nat → Option Nat) : ReadAnswer :=
  match s.place with
  | none => ⟨0, [], true⟩
  | some (n, pos) =>
    let r := readBlocks (readCount s.machine) answers (readCount s.machine) ((s.data n).drop pos)
    ⟨r.1.length, r.1.map UInt8.toNat, r.2⟩

/-- What the host's `write` takes of the bytes AH=40 hands to it. -/
def taken (s : Disk) (answer : Nat) : List UInt8 := ((ShortWrites.handed s.mode s.machine).take answer).map UInt8.ofNat

/-- CX:DX as a signed 32-bit offset. -/
def seekOffset (m : Machine) : Int := (BitVec.ofNat 32 (m.cx * 65536 + m.dx)).toInt

/-- Where AL and the offset lead: AL=2 is from the end, AL=1 from the position, any other from the start. -/
def seekTarget (m : Machine) (pos size : Nat) : Int :=
  (if m.r8l .eax = 2 then (size : Int) else if m.r8l .eax = 1 then (pos : Int) else 0) + seekOffset m

/-- The host's `lseek`: no file has a place before its start. -/
def lseek (s : Disk) : Option Nat :=
  match s.place with
  | none => none
  | some (n, pos) =>
    if seekTarget s.machine pos (s.data n).length < 0 then none
    else some (seekTarget s.machine pos (s.data n).length).toNat

end Disk

/-- A call with the host's answers.  `open_` also has the disk file, whether it is emptied, and the text mode of the
    path. -/
inductive DiskCall where
  | open_ (opened : Except Nat (Nat × Nat)) (inode : Option Nat) (truncate text : Bool)
  | close
  | dup (answer : Option Nat)
  | forceDup (answer : Option Nat)
  | read (answers : Nat → Option Nat)
  | write (answer : Option Nat)
  | seek

namespace DiskCall

/-- The call as the handle table sees it. -/
def handle (s : Disk) : DiskCall → HandleCall
  | .open_ opened _ _ _ => .table (.open_ opened)
  | .close => .table .close
  | .dup answer => .table (.dup answer)
  | .forceDup answer => .table (.forceDup answer)
  | .read answers => .read (s.readAnswer answers)
  | .write answer => .write (answer.map fun n => (s.taken n).length)
  | .seek => .seek s.lseek

/-- The modes after a call that came to `r`: the new handle is AX, for AH=46 it is CX. -/
def modes (s : Disk) (r : FileHost × Bool) : DiskCall → Nat → Bool
  | .open_ (.ok _) _ _ text => if r.2 then s.mode else Function.update s.mode r.1.machine.ax text
  | .dup _ => if r.2 then s.mode else Function.update s.mode r.1.machine.ax s.sourceMode
  | .forceDup _ => if r.2 then s.mode else Function.update s.mode s.machine.cx s.sourceMode
  | _ => s.mode

def inodes (s : Disk) : DiskCall → Nat → Option Nat
  | .open_ (.ok (_, file)) inode _ _ => Function.update s.inode file inode
  | _ => s.inode

/-- The bytes of the files after a call. -/
def contents (s : Disk) : DiskCall → Nat → List UInt8
  | .open_ (.ok _) (some n) true _ => Function.update s.data n []
  | .write (some k) =>
    match s.place with
    | none => s.data
    | some (n, pos) => Function.update s.data n (patch 0 (s.data n) pos (s.taken k))
  | _ => s.data

/-- The state after a call, and its carry flag. -/
def next (s : Disk) (c : DiskCall) : Disk × Bool :=
  let r := (c.handle s).next s.host
  (⟨r.1, c.modes s r, c.inodes s, c.contents s⟩, r.2)

end DiskCall

/-! ### What has been written -/

/-- The bytes of each file when the run began, or none since it was emptied, and what has been written to it since,
    the newest first.  The code knows nothing of it. -/
structure Ledger where
  base : Nat → List UInt8
  log : Nat → List (Nat × List UInt8)

namespace Ledger

def next (l : Ledger) (s : Disk) : DiskCall → Ledger
  | .open_ (.ok _) (some n) true _ => ⟨Function.update l.base n [], Function.update l.log n []⟩
  | .write (some k) =>
    match s.place with
    | none => l
    | some (n, pos) => { l with log := Function.update l.log n ((pos, s.taken k) :: l.log n) }
  | _ => l

/-- The byte written last at `i`. -/
def last (l : Ledger) (n i : Nat) : UInt8 := lastAt 0 (l.base n) (l.log n) i

/-- How long the file is. -/
def size (l : Ledger) (n : Nat) : Nat := extent (l.base n) (l.log n)

end Ledger

structure Traced where
  disk : Disk
  ledger : Ledger

inductive DiskEvent where
  | guest (cpu : Cpu) (mem : Mem)
  | call (c : DiskCall)

def Traced.next (s : Traced) : DiskEvent → Traced
  | .guest cpu mem =>
    { s with disk := { s.disk with host := { s.disk.host with
        machine := { s.disk.machine with cpu := cpu, mem := mem } } } }
  | .call c => ⟨(c.next s.disk).1, s.ledger.next s.disk c⟩

def diskStep (s : Traced) (e : DiskEvent) (t : Traced) : Prop := t = s.next e

/-- BX is above the standard handles, and no device's. -/
def OnFile (s : Disk) : Prop := 4 < s.machine.bx ∧ ∀ f, s.file = some f → s.inode f ≠ none

/-- The host keeps its promises about descriptors, AH=46 has a target in the table, and reads, writes and seeks are on
    files. -/
def OnDisk (s : Traced) : DiskEvent → Prop
  | .guest _ _ => True
  | .call c => InTable s.disk.host (.call (c.handle s.disk)) ∧
      ((∃ a, c = .read a) ∨ (∃ a, c = .write a) ∨ c = .seek → OnFile s.disk)

/-! ### What a read and a seek are to come to -/

/-- AH=3F has returned `k` bytes from the position of `f` on, each the one written last at its place, and moved `f`
    behind them: as many as the count, or as the file has, unless the host failed. -/
structure ReadsBack (s : Traced) (answers : Nat → Option Nat) (f n k : Nat) : Prop where
  bytes : ∀ i < k, readb (DiskCall.next s.disk (.read answers)).1.machine.mem
    (lin (dosArgAddr s.disk.machine .ds .edx + i)) = (s.ledger.last n (s.disk.host.pos f + i)).toNat
  moved : (DiskCall.next s.disk (.read answers)).1.host.pos f = s.disk.host.pos f + k
  most : k ≤ min (readCount s.disk.machine) (s.ledger.size n - s.disk.host.pos f)
  whole : (DiskCall.next s.disk (.read answers)).2 = false →
    k = min (readCount s.disk.machine) (s.ledger.size n - s.disk.host.pos f) ∧
      countOf (DiskCall.next s.disk (.read answers)).1.machine = k
  part : (DiskCall.next s.disk (.read answers)).2 = true →
    (DiskCall.next s.disk (.read answers)).1.machine.ax = k % 65536
  host : (∀ i, answers i ≠ none) → (DiskCall.next s.disk (.read answers)).2 = false

/-- AH=42 has moved `f` to the place asked for and says so in DX:AX, or has failed and moved nothing. -/
structure SeeksTo (s : Traced) (f n : Nat) : Prop where
  moved : 0 ≤ Disk.seekTarget s.disk.machine (s.disk.host.pos f) (s.ledger.size n) →
    (DiskCall.next s.disk .seek).2 = false ∧
      ((DiskCall.next s.disk .seek).1.host.pos f : Int) =
        Disk.seekTarget s.disk.machine (s.disk.host.pos f) (s.ledger.size n) ∧
      (DiskCall.next s.disk .seek).1.machine.dx * 65536 + (DiskCall.next s.disk .seek).1.machine.ax =
        (DiskCall.next s.disk .seek).1.host.pos f % 4294967296
  refused : Disk.seekTarget s.disk.machine (s.disk.host.pos f) (s.ledger.size n) < 0 →
    (DiskCall.next s.disk .seek).2 = true ∧ (DiskCall.next s.disk .seek).1.machine.ax = 0x19 ∧
      (DiskCall.next s.disk .seek).1.host.pos f = s.disk.host.pos f

/-! ### The block loop stores what lies ahead -/

section Blocks

variable {answers : Nat → Option Nat} {room : Nat} {left : List UInt8}

theorem readBlocks_failed (fuel : Nat) (hroom : room ≠ 0) (h : answers 0 = none) :
    readBlocks (fuel + 1) answers room left = ([], true) := by
  rw [readBlocks, if_neg hroom, h]
  rfl

theorem readBlocks_end (fuel : Nat) (hroom : room ≠ 0) (h : answers 0 ≠ none) :
    readBlocks (fuel + 1) answers room [] = ([], false) := by
  obtain ⟨n, hn⟩ := Option.ne_none_iff_exists'.mp h
  rw [readBlocks, if_neg hroom, hn, hostRead, Option.map_some, List.take_nil]

/-- One turn of the loop: some of the bytes ahead, and the loop goes on behind them. -/
theorem readBlocks_turn (fuel : Nat) (hroom : room ≠ 0) (h : answers 0 ≠ none) (hleft : left ≠ []) :
    ∃ t, 1 ≤ t ∧ t ≤ room ∧ t ≤ left.length ∧ readBlocks (fuel + 1) answers room left =
      (left.take t ++ (readBlocks fuel (fun i => answers (i + 1)) (room - t) (left.drop t)).1,
        (readBlocks fuel (fun i => answers (i + 1)) (room - t) (left.drop t)).2) := by
  obtain ⟨n, hn⟩ := Option.ne_none_iff_exists'.mp h
  have hpos : 0 < left.length := List.length_pos_of_ne_nil hleft
  have hlow : 1 ≤ max 1 (min n (min room blockSize)) := Nat.le_max_left _ _
  have hhigh : max 1 (min n (min room blockSize)) ≤ room := by
    simp only [blockSize]
    omega
  have hgot : hostRead (answers 0) (min room blockSize) left =
      some (left.take (max 1 (min n (min room blockSize)))) := by
    rw [hn]
    rfl
  rw [readBlocks, if_neg hroom, hgot]
  generalize max 1 (min n (min room blockSize)) = t at hlow hhigh
  obtain ⟨b, bs, hbs⟩ := List.ne_nil_iff_exists_cons.mp (List.ne_nil_of_length_pos (l := left.take t)
    (by rw [List.length_take]; omega))
  have hlen : (b :: bs).length = min t left.length := by rw [← hbs, List.length_take]
  have hsame : b :: bs = left.take (min t left.length) := by
    rw [← hbs]
    exact List.take_eq_take_min
  rw [hbs]
  dsimp only
  refine ⟨min t left.length, by omega, by omega, Nat.min_le_right _ _, ?_⟩
  rw [hlen, hsame]

end Blocks

/-- However the host splits the blocks, the loop stores the bytes ahead: as many as there is room for, unless a `read`
    fails. -/
theorem readBlocks_spec : ∀ (fuel : Nat) (answers : Nat → Option Nat) (room : Nat) (left : List UInt8), room ≤ fuel →
    ∃ k, (readBlocks fuel answers room left).1 = left.take k ∧ k ≤ min room left.length ∧
      ((readBlocks fuel answers room left).2 = false → k = min room left.length) ∧
      ((∀ i, answers i ≠ none) → (readBlocks fuel answers room left).2 = false)
  | 0, _, room, left, hfuel => ⟨0, rfl, Nat.zero_le _, fun _ => by omega, fun _ => rfl⟩
  | fuel + 1, answers, room, left, hfuel => by
    by_cases hroom : room = 0
    · have hdone : readBlocks (fuel + 1) answers room left = ([], false) := if_pos hroom
      rw [hdone]
      exact ⟨0, rfl, Nat.zero_le _, fun _ => by omega, fun _ => rfl⟩
    · by_cases hfirst : answers 0 = none
      · rw [readBlocks_failed fuel hroom hfirst]
        exact ⟨0, rfl, Nat.zero_le _, fun hf => absurd hf (by decide), fun hall => absurd hfirst (hall 0)⟩
      · by_cases hleft : left = []
        · rw [hleft, readBlocks_end fuel hroom hfirst]
          exact ⟨0, rfl, Nat.zero_le _, fun _ => by rw [List.length_nil]; omega, fun _ => rfl⟩
        · obtain ⟨t, hlow, hroomt, hleftt, hturn⟩ := readBlocks_turn fuel hroom hfirst hleft
          -- the fuel goes down with the room
          obtain ⟨k, hbytes, hmost, hwhole, hhost⟩ := readBlocks_spec fuel (fun i => answers (i + 1)) (room - t)
            (left.drop t) (by omega)
          rw [List.length_drop] at hmost hwhole
          rw [hturn]
          refine ⟨t + k, ?_, by omega, fun hf => ?_, fun hall => ?_⟩
          · dsimp only
            rw [hbytes, ← List.take_add]
          · have hk := hwhole hf
            omega
          · exact hhost fun i => hall (i + 1)

/-! ### The ledger agrees with the files -/

/-- Every file is what its ledger says. -/
def Agrees (s : Traced) : Prop := ∀ n, s.disk.data n = patched 0 (s.ledger.base n) (s.ledger.log n)

theorem contents_agree {s : Traced} (h : Agrees s) (c : DiskCall) :
    Agrees ⟨(c.next s.disk).1, s.ledger.next s.disk c⟩ := by
  intro n
  cases c with
  | open_ opened inode truncate text =>
    rcases opened with code | ⟨fd, file⟩
    · exact h n
    · rcases inode with _ | n'
      · exact h n
      · cases truncate with
        | false => exact h n
        | true =>
          show Function.update s.disk.data n' [] n =
            patched 0 (Function.update s.ledger.base n' [] n) (Function.update s.ledger.log n' [] n)
          by_cases hn : n = n'
          · rw [hn, Function.update_self, Function.update_self, Function.update_self]
            rfl
          · rw [Function.update_of_ne hn, Function.update_of_ne hn, Function.update_of_ne hn]
            exact h n
  | write answer =>
    cases answer with
    | none => exact h n
    | some k =>
      show DiskCall.contents s.disk (.write (some k)) n = patched 0 ((s.ledger.next s.disk (.write (some k))).base n)
        ((s.ledger.next s.disk (.write (some k))).log n)
      unfold DiskCall.contents Ledger.next
      rcases s.disk.place with _ | ⟨n', pos⟩
      · exact h n
      · dsimp only
        by_cases hn : n = n'
        · rw [hn, Function.update_self, Function.update_self, patched, h n']
        · rw [Function.update_of_ne hn, Function.update_of_ne hn]
          exact h n
  | close => exact h n
  | dup answer => exact h n
  | forceDup answer => exact h n
  | read answers => exact h n
  | seek => exact h n

/-! ### One read -/

section Read

variable {m : Machine} {a : ReadAnswer} {fd : Nat}

theorem int21_3F_mem (h : readFd m = some fd) :
    (int21_3F m a).1.mem = storeLin m.mem (dosArgAddr m .ds .edx) a.stored := by
  unfold int21_3F
  rw [h]
  dsimp only
  split
  · rfl
  · exact setCount_mem _ _

theorem int21_3F_cf (h : readFd m = some fd) : (int21_3F m a).2 = a.failed := by
  unfold int21_3F
  rw [h]
  dsimp only
  split
  · rename_i hf
    exact hf.symm
  · rename_i hf
    exact (Bool.eq_false_iff.mpr hf).symm

/-- Without a failure the count is what was stored. -/
theorem int21_3F_count (h : readFd m = some fd) (hok : a.failed = false) (hlen : a.stored.length ≤ readCount m) :
    countOf (int21_3F m a).1 = a.stored.length := by
  unfold int21_3F
  rw [h]
  dsimp only
  rw [hok, if_neg Bool.false_ne_true]
  exact countOf_setCount (m := m.setMem (storeLin m.mem (dosArgAddr m .ds .edx) a.stored)) hlen

theorem int21_3F_part (h : readFd m = some fd) (hfail : a.failed = true) :
    (int21_3F m a).1.ax = a.stored.length % 65536 := by
  unfold int21_3F
  rw [h]
  dsimp only
  rw [if_pos hfail]
  exact r16_setR16 _ _ _

end Read

section Place

variable {s : Traced} {f n : Nat}

/-- The descriptor of a handle above the standard ones. -/
theorem descriptor_of_file (hbx : 4 < s.disk.machine.bx) (hfile : s.disk.file = some f) :
    ∃ fd, s.disk.machine.handles s.disk.machine.bx = some fd ∧ s.disk.machine.fds fd = some f := by
  rw [Disk.file, fileOf, if_neg (Nat.not_le.mpr hbx)] at hfile
  exact Option.bind_eq_some_iff.mp hfile

theorem place_eq (hfile : s.disk.file = some f) (hinode : s.disk.inode f = some n) :
    s.disk.place = some (n, s.disk.host.pos f) := by
  rw [Disk.place, hfile, Option.bind_some, hinode]
  rfl

theorem moveFile_self {d : FileHost} {fd : Nat} {move : Nat → Nat} (h : d.machine.fds fd = some f) :
    moveFile d (some fd) move f = move (d.pos f) := by
  have hfile : fileAt d.machine (some fd) = some f := h
  rw [moveFile, hfile]
  exact Function.update_self _ _ _

/-- The bytes ahead of the position are those written last. -/
theorem ahead_eq (hagree : Agrees s) (n pos i : Nat) : ((s.disk.data n).drop pos)[i]? =
    if pos + i < s.ledger.size n then some (s.ledger.last n (pos + i)) else none := by
  rw [List.getElem?_drop, hagree n]
  exact getElem?_patched 0 _ _ _

theorem size_eq (hagree : Agrees s) (n : Nat) : (s.disk.data n).length = s.ledger.size n := by
  rw [hagree n]
  exact length_patched 0 _ _

/-- **One read.** -/
theorem read_spec (hagree : Agrees s) (hbx : 4 < s.disk.machine.bx) (hfile : s.disk.file = some f)
    (hinode : s.disk.inode f = some n) (answers : Nat → Option Nat) : ∃ k, ReadsBack s answers f n k := by
  obtain ⟨fd, hhandle, hfd⟩ := descriptor_of_file hbx hfile
  have hread : readFd s.disk.machine = some fd := by
    rw [readFd, if_neg (by omega)]
    exact hhandle
  obtain ⟨k, hbytes, hmost, hwhole, hhost⟩ := readBlocks_spec (readCount s.disk.machine) answers
    (readCount s.disk.machine) ((s.disk.data n).drop (s.disk.host.pos f)) (Nat.le_refl _)
  rw [List.length_drop, size_eq hagree] at hmost hwhole
  have hanswer : s.disk.readAnswer answers =
      ⟨k, (((s.disk.data n).drop (s.disk.host.pos f)).take k).map UInt8.toNat,
        (readBlocks (readCount s.disk.machine) answers (readCount s.disk.machine)
          ((s.disk.data n).drop (s.disk.host.pos f))).2⟩ := by
    unfold Disk.readAnswer
    rw [place_eq hfile hinode]
    dsimp only
    rw [hbytes, List.length_take, List.length_drop, size_eq hagree, Nat.min_eq_left (by omega)]
  generalize hfailed : (readBlocks (readCount s.disk.machine) answers (readCount s.disk.machine)
    ((s.disk.data n).drop (s.disk.host.pos f))).2 = failed at hanswer hwhole hhost
  have hlen : ((((s.disk.data n).drop (s.disk.host.pos f)).take k).map UInt8.toNat).length = k := by
    rw [List.length_map, List.length_take, List.length_drop, size_eq hagree]
    omega
  have hcount := (readCount_lt s.disk.machine).1
  have hcf : (DiskCall.next s.disk (.read answers)).2 = failed := by
    show (int21_3F s.disk.machine (s.disk.readAnswer answers)).2 = failed
    rw [int21_3F_cf hread, hanswer]
  refine ⟨k, fun i hi => ?_, ?_, hmost, fun hok => ?_, fun hfail => ?_, fun hall => hcf.trans (hhost hall)⟩
  · show readb (int21_3F s.disk.machine (s.disk.readAnswer answers)).1.mem _ = _
    rw [int21_3F_mem hread, hanswer]
    dsimp only
    refine (FindTimes.readb_storeLin _ _ _ (by omega) (by omega)).trans ?_
    have hat := ahead_eq hagree n (s.disk.host.pos f) i
    rw [if_pos (by omega)] at hat
    rw [List.getElem_map, List.getElem_take, (List.getElem?_eq_some_iff.mp hat).2]
    exact Nat.mod_eq_of_lt (UInt8.toNat_lt _)
  · show moveFile s.disk.host (readFd s.disk.machine) (· + (s.disk.readAnswer answers).consumed) f = _
    rw [hread, moveFile_self hfd, hanswer]
  · rw [hcf] at hok
    refine ⟨hwhole hok, ?_⟩
    show countOf (int21_3F s.disk.machine (s.disk.readAnswer answers)).1 = k
    rw [hanswer, int21_3F_count hread hok (by rw [hlen]; omega), hlen]
  · rw [hcf] at hfail
    show (int21_3F s.disk.machine (s.disk.readAnswer answers)).1.ax = _
    rw [hanswer, int21_3F_part hread hfail, hlen]

theorem int21_42_moved {m : Machine} {fd : Nat} {pos : Option Nat} {p : Nat} (h : sourceFd m = some fd)
    (hp : pos = some p) : int21_42 m pos = (m.setR16s [(.eax, p), (.edx, p / 65536)], false) := by
  rw [hp, int21_42, h]

/-- A position in DX:AX. -/
theorem position_words (m : Machine) (p : Nat) :
    (m.setR16s [(.eax, p), (.edx, p / 65536)]).dx * 65536 + (m.setR16s [(.eax, p), (.edx, p / 65536)]).ax =
      p % 4294967296 := by
  have hdx : (m.setR16s [(.eax, p), (.edx, p / 65536)]).dx = p / 65536 % 65536 := r16_setR16 _ _ _
  have hax : (m.setR16s [(.eax, p), (.edx, p / 65536)]).ax = p % 65536 :=
    (r16_setR16_of_ne (r := .edx) _ _ (by decide)).trans (r16_setR16 _ _ _)
  rw [hdx, hax]
  omega

/-- **One seek.** -/
theorem seek_spec (hagree : Agrees s) (hbx : 4 < s.disk.machine.bx) (hfile : s.disk.file = some f)
    (hinode : s.disk.inode f = some n) : SeeksTo s f n := by
  obtain ⟨fd, hhandle, hfd⟩ := descriptor_of_file hbx hfile
  have hsource : sourceFd s.disk.machine = some fd := by
    rw [sourceFd, if_neg (Nat.not_le.mpr hbx)]
    exact hhandle
  have hpos : (DiskCall.next s.disk .seek).1.host.pos f = s.disk.lseek.getD (s.disk.host.pos f) := by
    show moveFile s.disk.host (sourceFd s.disk.machine) (s.disk.lseek.getD ·) f = _
    rw [hsource, moveFile_self hfd]
  have hlseek : s.disk.lseek =
      if Disk.seekTarget s.disk.machine (s.disk.host.pos f) (s.ledger.size n) < 0 then none
      else some (Disk.seekTarget s.disk.machine (s.disk.host.pos f) (s.ledger.size n)).toNat := by
    rw [Disk.lseek, place_eq hfile hinode]
    dsimp only
    rw [size_eq hagree]
  constructor
  · intro htarget
    rw [if_neg (Int.not_lt.mpr htarget)] at hlseek
    have hcall : int21_42 s.disk.machine s.disk.lseek = _ := int21_42_moved hsource hlseek
    refine ⟨congrArg Prod.snd hcall, ?_, ?_⟩
    · rw [hpos, hlseek, Option.getD_some]
      exact Int.toNat_of_nonneg htarget
    · show (int21_42 s.disk.machine s.disk.lseek).1.dx * 65536 + (int21_42 s.disk.machine s.disk.lseek).1.ax = _
      rw [hcall, hpos, hlseek]
      exact position_words _ _
  · intro htarget
    rw [if_pos htarget] at hlseek
    have hcall : int21_42 s.disk.machine s.disk.lseek = failWith s.disk.machine 0x19 := by
      rw [hlseek, int21_42, hsource]
      exact if_neg (Nat.not_le.mpr hbx)
    refine ⟨congrArg Prod.snd hcall, ?_, ?_⟩
    · show (int21_42 s.disk.machine s.disk.lseek).1.ax = 0x19
      rw [hcall]
      exact r16_setR16 _ _ _
    · rw [hpos, hlseek]
      rfl

end Place

/-! ### Every run -/

theorem tableOk_empty {m : Machine} (h : ∀ h, m.handles h = none) : TableOk m.fds m := by
  have hnone : ∀ k fd, m.handles k ≠ some fd := fun k fd hk => by
    rw [h k] at hk
    cases hk
  constructor
  · exact fun k fd hk => absurd hk (hnone k fd)
  · exact fun k fd hk => absurd hk (hnone k fd)
  · exact fun k _ fd hk => absurd hk (hnone k fd)
  · exact fun fd hne hnot => absurd hnot hne
  · exact fun k fd hk => absurd hk (hnone k fd)
  · exact fun _ _ => rfl

/-- What every step keeps: the handles are in order, and the ledger agrees with the files. -/
structure DiskOk (start : Nat → Option Nat) (s : Traced) : Prop where
  table : TableOk start s.disk.machine
  agrees : Agrees s

theorem diskStep_keeps {start : Nat → Option Nat} {s t : Traced} {e : DiskEvent} (h : DiskOk start s)
    (hg : OnDisk s e) (hs : diskStep s e t) : DiskOk start t := by
  obtain rfl := hs
  cases e with
  | guest cpu mem => exact ⟨h.table.same rfl rfl, h.agrees⟩
  | call c => exact ⟨(call_kept h.table hg.1).table.ok, contents_agree h.agrees c⟩

/-- **Files read back.**  In every state of a run every read of an open file returns, however the host splits the
    blocks, the bytes that were written last at their places through whichever handle, and every seek leads to where
    the next read begins. -/
theorem reads_last_written {s₀ s : Traced} {es : List DiskEvent} (h₀ : ∀ h, s₀.disk.machine.handles h = none)
    (hledger : s₀.ledger = ⟨s₀.disk.data, fun _ => []⟩) (hrun : Guarded diskStep OnDisk s₀ es s)
    (hon : OnFile s.disk) (hopen : s.disk.machine.handles s.disk.machine.bx ≠ none) :
    ∃ f n, s.disk.file = some f ∧ s.disk.inode f = some n ∧
      (∀ answers, ∃ k, ReadsBack s answers f n k) ∧ SeeksTo s f n := by
  have hstart : DiskOk s₀.disk.machine.fds s₀ := ⟨tableOk_empty h₀, fun n => by rw [hledger]; rfl⟩
  have hok : DiskOk s₀.disk.machine.fds s :=
    hrun.invariant (P := DiskOk s₀.disk.machine.fds) (fun s e t => diskStep_keeps) hstart
  obtain ⟨fd, hfd⟩ := Option.ne_none_iff_exists'.mp hopen
  obtain ⟨f, hf⟩ := Option.ne_none_iff_exists'.mp (hok.table.opened _ fd hfd)
  have hfile : s.disk.file = some f := by
    rw [Disk.file, fileOf, if_neg (Nat.not_le.mpr hon.1), hfd]
    exact hf
  obtain ⟨n, hn⟩ := Option.ne_none_iff_exists'.mp (hon.2 f hfile)
  exact ⟨f, n, hfile, hn, read_spec hok.agrees hon.1 hfile hn, seek_spec hok.agrees hon.1 hfile hn⟩

/-! ### A file written and read -/

def unwritten : Traced := ⟨⟨started, fun _ => false, fun _ => none, fun _ => []⟩, ⟨fun _ => [], fun _ => []⟩⟩

/-- BX=5, and the other registers of a call. -/
def callCpu (ax cx dx : BitVec 32) : Cpu :=
  { zeroCpu with regs := Function.update (Function.update (Function.update (Function.update zeroCpu.regs
      .eax ax) .ebx 5) .ecx cx) .edx dx }

/-- File 3 has been made, and `Hi` written to it. -/
def writtenHi : Traced :=
  ((unwritten.next (.call (.open_ (.ok (7, 100)) (some 3) true false))).next
    (.guest (callCpu 0 2 0) fun x => if x = 0 then 0x48 else if x = 1 then 0x69 else 0)).next (.call (.write (some 2)))

/-- The program has gone back to the `i`, and asks for four bytes. -/
def readingBack : Traced :=
  ((writtenHi.next (.guest (callCpu 0 0 1) writtenHi.disk.machine.mem)).next (.call .seek)).next
    (.guest (callCpu 0 4 256) writtenHi.disk.machine.mem)

theorem onFile_of {s : Disk} {f : Nat} (hbx : 4 < s.machine.bx) (hfile : s.file = some f) (hinode : s.inode f ≠ none) :
    OnFile s := by
  refine ⟨hbx, fun g hg => ?_⟩
  obtain rfl := Option.some.inj (hfile.symm.trans hg)
  exact hinode

theorem run_readingBack : Guarded diskStep OnDisk unwritten [.call (.open_ (.ok (7, 100)) (some 3) true false),
    .guest (callCpu 0 2 0) (fun x => if x = 0 then 0x48 else if x = 1 then 0x69 else 0), .call (.write (some 2)),
    .guest (callCpu 0 0 1) writtenHi.disk.machine.mem, .call .seek,
    .guest (callCpu 0 4 256) writtenHi.disk.machine.mem] readingBack := by
  refine .cons ⟨⟨open_answered, fun _ h => by cases h⟩, fun h => ?_⟩ rfl (.cons trivial rfl ?_)
  · rcases h with ⟨_, h⟩ | ⟨_, h⟩ | h <;> cases h
  refine .cons ⟨trivial, fun _ => ?_⟩ rfl (.cons trivial rfl ?_)
  · exact onFile_of (f := 100) (by decide +kernel) (by decide +kernel) (by decide +kernel)
  refine .cons ⟨trivial, fun _ => ?_⟩ rfl (.cons trivial rfl (.nil _))
  exact onFile_of (f := 100) (by decide +kernel) (by decide +kernel) (by decide +kernel)

theorem reads_last_written_hi : ∃ f n, readingBack.disk.file = some f ∧ readingBack.disk.inode f = some n ∧
    (∀ answers, ∃ k, ReadsBack readingBack answers f n k) ∧ SeeksTo readingBack f n :=
  reads_last_written (fun _ => rfl) rfl run_readingBack
    (onFile_of (f := 100) (by decide +kernel) (by decide +kernel) (by decide +kernel)) (by decide +kernel)

example : (readingBack.ledger.size 3, readingBack.disk.host.pos 100, readingBack.ledger.last 3 1) = (2, 1, 0x69) := by
  decide +kernel

end Dosiz.FileContents
