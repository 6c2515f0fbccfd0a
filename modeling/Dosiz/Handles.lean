/-
  Dosiz/Handles.lean
  ==================
  **The DOS handle table** (`allocate_handle`, INT 21h AH=3C, 3D, 3E, 45, 46 and 6C of
  `bridge.cc`).

  A DOS handle from 5 to 19 stands for a host descriptor, handles 0 to 4 for the host
  descriptors of the same numbers.  What `open`, `dup` and `dup2` of the host answer is
  an argument of the call.
-/
import Dosiz.Machine

namespace Dosiz

open Machine

def FIRST_FILE_HANDLE : Nat := 5
def MAX_HANDLES : Nat := 20

/-- `allocate_handle`: the first free handle. -/
def allocateHandle (m : Machine) : Option Nat :=
  (List.range' FIRST_FILE_HANDLE (MAX_HANDLES - FIRST_FILE_HANDLE)).find?
    fun h => (m.handles h).isNone

def setHandle (m : Machine) (h : Nat) (fd : Option Nat) : Machine :=
  { m with handles := Function.update m.handles h fd }

def setFd (m : Machine) (fd : Nat) (file : Option Nat) : Machine :=
  { m with fds := Function.update m.fds fd file }

/-- Give the descriptor `fd`, just opened, a handle, or close it again. -/
def giveHandle (m : Machine) (fd : Nat) : Machine × Bool :=
  match allocateHandle m with
  | none => failWith (setFd m fd none) 0x04
  | some h => ((setHandle m h (some fd)).setR16 .eax h, false)

/-- AH=3C, 3D and 6C once the path is resolved: `opened` is what the host's `open` came to, the DOS
    error or the new descriptor with its file. -/
def openHandle (m : Machine) (opened : Except Nat (Nat × Nat)) : Machine × Bool :=
  match opened with
  | .error code => failWith m code
  | .ok (fd, file) => giveHandle (setFd m fd (some file)) fd

/-- AH=3E: close the handle BX.  Handles 0 to 4 only seem to close. -/
def int21_3E (m : Machine) : Machine × Bool :=
  if m.bx ≤ 4 then (m, false)
  else
    match m.handles m.bx with
    | none => failWith m 0x06
    | some fd => (setHandle (setFd m fd none) m.bx none, false)

/-- The host descriptor of the handle BX. -/
def sourceFd (m : Machine) : Option Nat := if m.bx ≤ 4 then some m.bx else m.handles m.bx

/-- AH=45: a second handle for BX; `dup` is the descriptor the host's `dup` gave. -/
def int21_45 (m : Machine) (dup : Option Nat) : Machine × Bool :=
  match sourceFd m with
  | none => failWith m 0x06
  | some src =>
    match dup with
    | none => failWith m 0x04
    | some fd => giveHandle (setFd m fd (m.fds src)) fd

/-- AH=46: make CX a second handle for BX.  A CX up to 4 is the host descriptor itself
    (`dup2`); any other is closed if open, and gets the descriptor `dup` gave. -/
def int21_46 (m : Machine) (dup : Option Nat) : Machine × Bool :=
  match sourceFd m with
  | none => failWith m 0x06
  | some src =>
    if m.cx ≤ 4 then
      if dup.isNone then failWith m 0x04 else (setFd m m.cx (m.fds src), false)
    else
      let r := match m.handles m.cx with
        | none => m
        | some fd => setHandle (setFd m fd none) m.cx none
      match dup with
      | none => failWith r 0x04
      | some fd => (setHandle (setFd r fd (r.fds src)) m.cx (some fd), false)

/-- A handle call with the host's answer. -/
inductive FileCall where
  | open_ (opened : Except Nat (Nat × Nat))
  | close
  | dup (answer : Option Nat)
  | forceDup (answer : Option Nat)

def FileCall.serve (m : Machine) : FileCall → Machine × Bool
  | .open_ opened => openHandle m opened
  | .close => int21_3E m
  | .dup answer => int21_45 m answer
  | .forceDup answer => int21_46 m answer

/-- The file a handle stands for. -/
def fileOf (m : Machine) (h : Nat) : Option Nat :=
  (if h ≤ 4 then some h else m.handles h).bind m.fds

end Dosiz
