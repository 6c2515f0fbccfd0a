/-
  Dosiz/CurrentDir.lean
  =====================
  **Drives, current directories and what a path opens** (INT 21h AH=0E, 3B, 3D, 47 and 60 of
  `bridge.cc`).

  AH=60 puts the current directory of the drive in front of a relative path; AH=3D looks a
  relative path up below the host directory of the drive.  The two are compared on a host
  file system: directories with names, and `lookup` of a path through them.  There
  `dos_to_host` is the lookup that does not tell upper and lower case apart
  (`lookup_dosToHost`).
-/
import Mathlib.Logic.Function.Basic
import Dosiz.HostPath
import Dosiz.Transition

namespace Dosiz.CurrentDir

open HostPath Transition

/-! ### Upper case -/

theorem toUpper_of_not_lower {c : Char} (h : ¬ c.isLower = true) : c.toUpper = c := by
  refine dif_neg fun hc => h ?_
  exact Bool.and_eq_true_iff.mpr ⟨decide_eq_true hc.1, decide_eq_true hc.2⟩

theorem toUpper_of_lower {c : Char} (h : c.isLower = true) :
    c.toUpper.isUpper = true ∧ c.toUpper.toUpper = c.toUpper := by
  have hall : ∀ n < 26, (Char.ofNat (97 + n)).toUpper.isUpper = true ∧
      (Char.ofNat (97 + n)).toUpper.toUpper = (Char.ofNat (97 + n)).toUpper := by decide
  obtain ⟨hge, hle⟩ := Bool.and_eq_true_iff.mp h
  have hlow : 97 ≤ c.toNat := of_decide_eq_true hge
  have hhigh : c.toNat ≤ 122 := of_decide_eq_true hle
  have hc : Char.ofNat (97 + (c.toNat - 97)) = c := by
    rw [Nat.add_sub_cancel' hlow, Char.ofNat_toNat]
  have hup := hall (c.toNat - 97) (by omega)
  rwa [hc] at hup

theorem toUpper_toUpper (c : Char) : c.toUpper.toUpper = c.toUpper := by
  by_cases h : c.isLower = true
  · exact (toUpper_of_lower h).2
  · rw [toUpper_of_not_lower h, toUpper_of_not_lower h]

/-- A character that is no letter comes from itself only. -/
theorem toUpper_eq_iff {c k : Char} (hk : k.isAlpha = false) : c.toUpper = k ↔ c = k := by
  by_cases hc : c.isLower = true
  · have hup := (toUpper_of_lower hc).1
    have hno : k.isUpper = false ∧ k.isLower = false := Bool.or_eq_false_iff.mp hk
    constructor
    · intro h
      rw [h, hno.1] at hup
      cases hup
    · rintro rfl
      rw [hno.2] at hc
      cases hc
  · rw [toUpper_of_not_lower hc]

/-! ### The names of a path -/

/-- The names of what stands between slashes, for a path and the suffixes behind its slashes. -/
def namesOf (rests : List Str) : List Str := (rests.map (·.takeWhile (· ≠ '/'))).filter (· ≠ [])

def segs (path : Str) : List Str := namesOf (path :: afterSlashes path)

theorem afterSlashes_append (a b : Str) :
    afterSlashes (a ++ '/' :: b) = (afterSlashes a).map (· ++ '/' :: b) ++ b :: afterSlashes b := by
  induction a with
  | nil => rfl
  | cons c a ih =>
    rw [List.cons_append, afterSlashes, afterSlashes, ih]
    split <;> rfl

theorem takeWhile_append_slash (a b : Str) :
    (a ++ '/' :: b).takeWhile (· ≠ '/') = a.takeWhile (· ≠ '/') := by
  induction a with
  | nil => rfl
  | cons c a ih =>
    rw [List.cons_append]
    by_cases hc : c = '/'
    · simp [hc]
    · simp only [List.takeWhile_cons, ih]

theorem segs_append (a b : Str) : segs (a ++ '/' :: b) = segs a ++ segs b := by
  simp only [segs, namesOf, afterSlashes_append, List.map_cons, List.map_append, List.map_map,
    ← List.filter_append, ← List.cons_append, takeWhile_append_slash]
  congr 3
  exact List.map_congr_left fun s _ => takeWhile_append_slash s b

theorem segs_nil : segs [] = [] := rfl

theorem segs_slash (path : Str) : segs ('/' :: path) = segs path := by
  have h := segs_append [] path
  rwa [segs_nil, List.nil_append, List.nil_append] at h

/-- A name is its own only one. -/
theorem segs_name {s : Str} (hne : s ≠ []) (hs : '/' ∉ s) : segs s = [s] := by
  have hafter : ∀ t : Str, '/' ∉ t → afterSlashes t = [] := by
    intro t
    induction t with
    | nil => exact fun _ => rfl
    | cons c t ih =>
      intro ht
      rw [afterSlashes, if_neg fun hc : c = '/' => ht (by rw [hc]; exact List.mem_cons_self)]
      exact ih fun h => ht (List.mem_cons_of_mem c h)
  have htake : s.takeWhile (· ≠ '/') = s := by
    refine List.takeWhile_eq_self_iff.mpr fun c hc => ?_
    exact decide_eq_true fun h : c = '/' => hs (h ▸ hc)
  simp only [segs, namesOf, hafter s hs, List.map_cons, List.map_nil, htake]
  simp [hne]

/-! ### The host's files -/

/-- A host file system: what a name stands for in a directory, the names `readdir` shows there, and
    which of the files are directories.  The names "." and ".." are among the others. -/
structure HostFs where
  root : Nat
  workDir : Nat
  child : Nat → Str → Option Nat
  names : Nat → List Str
  isDir : Nat → Bool
  listed : ∀ d s, s ∈ names d ↔ child d s ≠ none
  proper : ∀ d, ∀ s ∈ names d, s ≠ [] ∧ '/' ∉ s

namespace HostFs

def find (fs : HostFs) (d : Nat) (ss : List Str) : Option Nat := ss.foldlM fs.child d

/-- `stat`: an absolute path from the root, any other from the working directory. -/
def lookup (fs : HostFs) : Str → Option Nat
  | [] => none
  | '/' :: path => fs.find fs.root (segs path)
  | path => fs.find fs.workDir (segs path)

/-- As `stat` and `readdir` show it to `dos_to_host`. -/
def tree (fs : HostFs) : HostTree where
  exists_ := fun path => (fs.lookup path).isSome
  entries := fun path => (fs.lookup path).map fs.names

/-- No two names of a directory differ only in upper and lower case. -/
def OneCase (fs : HostFs) : Prop :=
  ∀ d a b, fs.child d a ≠ none → fs.child d b ≠ none → upper a = upper b → a = b

/-- What a name stands for, in whatever case. -/
def foldChild (fs : HostFs) (d : Nat) (s : Str) : Option Nat :=
  ((fs.names d).find? fun name => upper name = upper s).bind (fs.child d)

def foldFind (fs : HostFs) (d : Nat) (ss : List Str) : Option Nat := ss.foldlM fs.foldChild d

variable {fs : HostFs}

theorem foldChild_of_child (h : fs.OneCase) {d : Nat} {s : Str} {n : Nat} (hn : fs.child d s = some n) :
    fs.foldChild d s = some n := by
  have hne : fs.child d s ≠ none := by rw [hn]; exact Option.some_ne_none n
  have hmem : s ∈ fs.names d := (fs.listed d s).mpr hne
  cases hfind : (fs.names d).find? fun name => upper name = upper s with
  | none =>
    have hno := List.find?_eq_none.mp hfind s hmem
    exact absurd (decide_eq_true rfl) hno
  | some name =>
    have hup : upper name = upper s := by simpa using List.find?_some hfind
    have hchild : fs.child d name ≠ none := (fs.listed d name).mp (List.mem_of_find?_eq_some hfind)
    have hname : name = s := h d name s hchild hne hup
    rw [foldChild, hfind, hname, Option.bind_some, hn]

theorem foldFind_of_find (h : fs.OneCase) : ∀ {ss : List Str} {d n : Nat}, fs.find d ss = some n →
    fs.foldFind d ss = some n
  | [], _, _, hn => hn
  | s :: ss, d, n, hn => by
    rw [find, List.foldlM_cons] at hn
    obtain ⟨e, he, hn⟩ := Option.bind_eq_some_iff.mp hn
    rw [foldFind, List.foldlM_cons, foldChild_of_child h he]
    exact foldFind_of_find h hn

theorem upper_upper (s : Str) : upper (upper s) = upper s := by
  simp only [upper, List.map_map]
  exact List.map_congr_left fun c _ => toUpper_toUpper c

theorem foldFind_upper (fs : HostFs) (d : Nat) (ss : List Str) :
    fs.foldFind d (ss.map upper) = fs.foldFind d ss := by
  have hone : ∀ e s, fs.foldChild e (upper s) = fs.foldChild e s := by
    intro e s
    simp only [foldChild, upper_upper]
  induction ss generalizing d with
  | nil => rfl
  | cons s ss ih =>
    simp only [foldFind, List.map_cons, List.foldlM_cons, hone]
    cases fs.foldChild d s with
    | none => rfl
    | some e => exact ih e

theorem find_append (fs : HostFs) (d : Nat) (ss ts : List Str) :
    fs.find d (ss ++ ts) = (fs.find d ss).bind fun e => fs.find e ts := List.foldlM_append

theorem foldFind_append (fs : HostFs) (d : Nat) (ss ts : List Str) :
    fs.foldFind d (ss ++ ts) = (fs.foldFind d ss).bind fun e => fs.foldFind e ts := List.foldlM_append

end HostFs

/-! ### What `dos_to_host` finds -/

theorem afterSlashes_cases (s : Str) : afterSlashes s = [] ∨ ∃ t, afterSlashes s = t :: afterSlashes t := by
  induction s with
  | nil => exact Or.inl rfl
  | cons c s ih =>
    rw [afterSlashes]
    split
    · exact Or.inr ⟨s, rfl⟩
    · exact ih

/-- A path from the root, or nothing. -/
def FromRoot (path : Str) : Prop := path = [] ∨ ∃ rest, path = '/' :: rest

theorem FromRoot.append {path : Str} (h : FromRoot path) (rest : Str) : FromRoot (path ++ '/' :: rest) := by
  rcases h with rfl | ⟨t, rfl⟩
  · exact Or.inr ⟨rest, rfl⟩
  · exact Or.inr ⟨t ++ '/' :: rest, rfl⟩

section Walk

variable {fs : HostFs}

theorem lookup_slash (path : Str) : fs.lookup ('/' :: path) = fs.find fs.root (segs ('/' :: path)) := by
  rw [segs_slash]
  rfl

theorem entries_at {resolved : Str} {d : Nat} (hroot : FromRoot resolved)
    (hd : fs.find fs.root (segs resolved) = some d) :
    fs.tree.entries (if resolved = [] then ['/'] else resolved) = some (fs.names d) := by
  rcases hroot with rfl | ⟨t, rfl⟩
  · rw [if_pos rfl]
    show (fs.lookup ('/' :: [])).map fs.names = _
    rw [lookup_slash, segs_slash, hd, Option.map_some]
  · rw [if_neg (List.cons_ne_nil _ _)]
    show (fs.lookup ('/' :: t)).map fs.names = _
    rw [lookup_slash, hd, Option.map_some]

/-- The walk finds what the names stand for in whatever case. -/
theorem find_walk : ∀ {l : List Str}, (l = [] ∨ ∃ s, l = s :: afterSlashes s) →
    ∀ (resolved : Str) (d : Nat), FromRoot resolved → fs.find fs.root (segs resolved) = some d →
      FromRoot (walk fs.tree resolved l) ∧
        fs.find fs.root (segs (walk fs.tree resolved l)) = fs.foldFind d (namesOf l) := by
  intro l
  induction l with
  | nil => exact fun _ _ _ hroot hd => ⟨hroot, hd⟩
  | cons rest more ih =>
    intro hl resolved d hroot hd
    obtain ⟨s, hs⟩ := hl.resolve_left (List.cons_ne_nil _ _)
    obtain ⟨rfl, rfl⟩ := List.cons.inj hs
    have hmore := ih (afterSlashes_cases rest)
    rw [walk]
    by_cases hseg : rest.takeWhile (· ≠ '/') = []
    · have hnames : namesOf (rest :: afterSlashes rest) = namesOf (afterSlashes rest) := by
        simp only [namesOf, List.map_cons, hseg]
        rfl
      rw [if_pos hseg, hnames]
      exact hmore _ _ hroot hd
    · have hnames : namesOf (rest :: afterSlashes rest) =
          rest.takeWhile (· ≠ '/') :: namesOf (afterSlashes rest) := by
        simp only [namesOf, List.map_cons]
        exact List.filter_cons_of_pos (decide_eq_true hseg)
      rw [if_neg hseg, hnames]
      have hmatch : matchEntry fs.tree (if resolved = [] then ['/'] else resolved)
          (rest.takeWhile (· ≠ '/')) =
            (fs.names d).find? fun name => upper name = upper (rest.takeWhile (· ≠ '/')) := by
        rw [matchEntry, entries_at hroot hd]
        rfl
      rw [hmatch, HostFs.foldFind, List.foldlM_cons]
      cases hfind : (fs.names d).find? fun name => upper name = upper (rest.takeWhile (· ≠ '/')) with
      | none =>
        have hnone : fs.child d (rest.takeWhile (· ≠ '/')) = none := by
          by_contra hne
          have hno := List.find?_eq_none.mp hfind _ ((fs.listed d _).mpr hne)
          exact absurd (decide_eq_true rfl) hno
        have hsegs : segs rest = rest.takeWhile (· ≠ '/') :: namesOf (afterSlashes rest) := hnames
        refine ⟨hroot.append rest, ?_⟩
        dsimp only
        rw [segs_append, fs.find_append, hd, Option.bind_some, hsegs, HostFs.find, List.foldlM_cons, hnone,
          HostFs.foldChild, hfind]
        rfl
      | some name =>
        have hmem := List.mem_of_find?_eq_some hfind
        obtain ⟨e, he⟩ := Option.ne_none_iff_exists'.mp ((fs.listed d name).mp hmem)
        obtain ⟨hne, hslash⟩ := fs.proper d name hmem
        have hd' : fs.find fs.root (segs (resolved ++ '/' :: name)) = some e := by
          rw [segs_append, segs_name hne hslash, fs.find_append, hd, Option.bind_some, HostFs.find,
            List.foldlM_cons, he]
          rfl
        have hfold : fs.foldChild d (rest.takeWhile (· ≠ '/')) = some e := by
          rw [HostFs.foldChild, hfind, Option.bind_some, he]
        rw [hfold]
        exact hmore _ _ (hroot.append name) hd'

theorem walk_eq_nil {tree : HostTree} : ∀ {l : List Str} {resolved : Str}, walk tree resolved l = [] →
    resolved = [] ∧ namesOf l = []
  | [], _, h => ⟨h, rfl⟩
  | rest :: more, resolved, h => by
    rw [walk] at h
    split at h
    · rename_i hseg
      obtain ⟨hres, hmore⟩ := walk_eq_nil h
      refine ⟨hres, ?_⟩
      rw [namesOf, List.map_cons, hseg]
      exact hmore
    · split at h
      · simp at h
      · have hres := (walk_eq_nil h).1
        simp at hres

/-- Below a drive mounted on an absolute path, `dos_to_host` finds what the names of the mount and
    of the path stand for, in whatever case. -/
theorem lookup_dosToHost (h : fs.OneCase) (drives : Drives) {p : Str} {t : Str}
    (hl : literalPath drives p = '/' :: t) :
    fs.lookup (dosToHost drives fs.tree p) = fs.foldFind fs.root (segs (literalPath drives p)) := by
  unfold dosToHost
  dsimp only
  rw [hl]
  by_cases hex : fs.tree.exists_ ('/' :: t) = true
  · rw [if_pos hex]
    obtain ⟨n, hn⟩ := Option.isSome_iff_exists.mp (show (fs.lookup ('/' :: t)).isSome = true from hex)
    rw [hn]
    rw [lookup_slash] at hn
    exact (HostFs.foldFind_of_find h hn).symm
  · rw [if_neg hex]
    show fs.lookup (if walk fs.tree [] (t :: afterSlashes t) = [] then '/' :: t else
      walk fs.tree [] (t :: afterSlashes t)) = _
    obtain ⟨hroot, hfind⟩ := find_walk (Or.inr ⟨t, rfl⟩) [] fs.root (Or.inl rfl) rfl
    have hsegs : namesOf (t :: afterSlashes t) = segs ('/' :: t) := (segs_slash t).symm
    rw [hsegs] at hfind
    rcases hroot with hnil | ⟨r, hr⟩
    · -- no name at all: the root
      have hnone : segs ('/' :: t) = [] := hsegs ▸ (walk_eq_nil hnil).2
      rw [if_pos hnil, lookup_slash, hnone]
      rfl
    · rw [if_neg (by rw [hr]; exact List.cons_ne_nil _ _), ← hfind, hr, lookup_slash]

end Walk

/-! ### Slashes and case -/

/-- The DOS path with the host's slashes. -/
def hostSlashes (path : Str) : Str := path.map fun c => if c = '\\' then '/' else c

/-- What AH=60 makes of a character. -/
def canonChar (c : Char) : Char := (if c = '/' then '\\' else c).toUpper

theorem hostSlashes_canon (path : Str) : hostSlashes (path.map canonChar) = upper (hostSlashes path) := by
  simp only [hostSlashes, upper, List.map_map]
  refine List.map_congr_left fun c _ => ?_
  simp only [Function.comp_apply]
  by_cases hslash : c = '/'
  · rw [hslash]
    decide
  · have hc : canonChar c = c.toUpper := by
      rw [canonChar, if_neg hslash]
    by_cases hback : c = '\\'
    · rw [hback]
      decide
    · have hup : c.toUpper ≠ '\\' := fun h => hback ((toUpper_eq_iff (by decide)).mp h)
      simp only [hc, if_neg hback, if_neg hup]

theorem afterSlashes_upper (path : Str) : afterSlashes (upper path) = (afterSlashes path).map upper := by
  induction path with
  | nil => rfl
  | cons c path ih =>
    have hcons : upper (c :: path) = c.toUpper :: upper path := rfl
    rw [hcons, afterSlashes, afterSlashes, ih]
    simp only [toUpper_eq_iff (show ('/' : Char).isAlpha = false by decide)]
    split <;> rfl

theorem takeWhile_upper {k : Char} (hk : k.isAlpha = false) (path : Str) :
    (upper path).takeWhile (· ≠ k) = upper (path.takeWhile (· ≠ k)) := by
  induction path with
  | nil => rfl
  | cons c path ih =>
    have hcons : upper (c :: path) = c.toUpper :: upper path := rfl
    rw [hcons, List.takeWhile_cons, List.takeWhile_cons, ih]
    simp only [ne_eq, toUpper_eq_iff hk]
    split <;> rfl

theorem segs_upper (path : Str) : segs (upper path) = (segs path).map upper := by
  have hcons : upper path :: afterSlashes (upper path) = (path :: afterSlashes path).map upper := by
    rw [afterSlashes_upper]
    rfl
  simp only [segs, namesOf, hcons, List.map_map, List.filter_map]
  have hcomp : ((fun s : Str => s.takeWhile (· ≠ '/')) ∘ upper) =
      upper ∘ fun s : Str => s.takeWhile (· ≠ '/') := by
    funext s
    exact takeWhile_upper (by decide) s
  rw [hcomp]
  congr 1
  refine List.filter_congr fun s _ => ?_
  simp [upper]

/-! ### The calls -/

/-- The drives, each with its current directory (`s_drive_cwd`). -/
structure Dirs extends PathConfig where
  cwd : Char → Str

/-- AH=0E: make drive number DL the current one. -/
def int21_0E (s : Dirs) (dl : Nat) : Dirs :=
  let drive := Char.ofNat ((0x41 + dl) % 256)
  if (s.mounted drive).isSome then { s with current := drive } else s

/-- What AH=3B notes of its path. -/
def relDir (q : Str) : Str :=
  match (dropDrive q).map fun c => if c = '/' then '\\' else c with
  | '\\' :: rel => rel
  | rel => rel

/-- `stat` of a path, and `S_ISDIR`. -/
def HostFs.isDirectory (fs : HostFs) (path : Str) : Bool := (fs.lookup path).any fs.isDir

/-- AH=3B: change to the directory `q`; `none` is the answer that there is none. -/
def int21_3B (fs : HostFs) (s : Dirs) (q : Str) : Option Dirs :=
  if fs.isDirectory (dosToHost s.toDrives fs.tree q) then
    some { s with cwd := Function.update s.cwd s.current (relDir q) }
  else none

def rooted : Str → Bool
  | c :: _ => isSlash c
  | [] => false

/-- The path of AH=60 before its letters are made upper case. -/
def fullPath (s : Dirs) (src : Str) : Str :=
  let path := dropDrive src
  let cwd := s.cwd (dosDrive s.toDrives src)
  if rooted path then path
  else if cwd = [] then '\\' :: path
  else if rooted cwd then cwd ++ '\\' :: path
  else '\\' :: (cwd ++ '\\' :: path)

def canon (s : Dirs) (src : Str) : Str :=
  dosDrive s.toDrives src :: ':' :: (fullPath s src).map canonChar

/-- AH=60: the canonical path, as much of it as the buffer takes. -/
def int21_60 (s : Dirs) (src : Str) : Str := (canon s src).take 127

/-- AH=47: the current directory of a drive. -/
def int21_47 (s : Dirs) (drive : Char) : Str := (s.cwd drive).take 63

/-- What AH=3D comes to: the null device, or the file of the host that is opened. -/
inductive Opened where
  | device
  | file (node : Option Nat)
  deriving DecidableEq

def int21_3D (fs : HostFs) (s : Dirs) (p : Str) : Opened :=
  match PathCall.target s.toPathConfig fs.tree p .open_ with
  | .device => .device
  | .file path => .file ((fs.lookup path).filter fun n => !fs.isDir n)

/-! ### Where a path leads -/

/-- The names of a DOS path below its drive. -/
def dosNames (path : Str) : List Str := segs (hostSlashes path)

/-- The drive is mounted on `base`, a path from the root of the host. -/
structure MountedOn (s : Drives) (drive : Char) (base : Str) : Prop where
  mounted : s.mounted drive = some base
  root : ∃ t, base = '/' :: t

/-- The literal path is the base, and the components behind it. -/
theorem literalPath_base {s : Drives} {p base : Str} (hm : s.mounted (dosDrive s p) = some base) (hne : base ≠ []) :
    (∃ t, literalPath s p = base ++ t) ∧ segs (literalPath s p) = segs base ++ dosNames (dropDrive p) := by
  have hlit : literalPath s p = match hostSlashes (dropDrive p) with
      | [] => base
      | '/' :: _ => base ++ hostSlashes (dropDrive p)
      | _ => if base = [] then hostSlashes (dropDrive p) else base ++ '/' :: hostSlashes (dropDrive p) := by
    rw [literalPath, hm]
    rfl
  rw [dosNames]
  generalize hostSlashes (dropDrive p) = r at hlit ⊢
  cases r with
  | nil =>
    have hbase : literalPath s p = base := hlit
    rw [hbase, segs_nil, List.append_nil]
    exact ⟨⟨[], (List.append_nil _).symm⟩, rfl⟩
  | cons c r =>
    by_cases hc : c = '/'
    · subst hc
      exact ⟨⟨_, hlit⟩, by rw [hlit, segs_slash]; exact segs_append base r⟩
    · have hbelow : literalPath s p = base ++ '/' :: (c :: r) := by
        rw [hlit]
        split
        · rename_i hnil
          cases hnil
        · rename_i hcons
          exact absurd (List.cons.inj hcons).1 hc
        · exact if_neg hne
      exact ⟨⟨_, hbelow⟩, by rw [hbelow]; exact segs_append base _⟩

theorem literalPath_names {s : Drives} {p base : Str} (h : MountedOn s (dosDrive s p) base) :
    (∃ t, literalPath s p = '/' :: t) ∧
      segs (literalPath s p) = segs base ++ dosNames (dropDrive p) := by
  obtain ⟨b, hb⟩ := h.root
  have hne : base ≠ [] := by
    rw [hb]
    exact List.cons_ne_nil _ _
  obtain ⟨⟨t, ht⟩, hsegs⟩ := literalPath_base h.mounted hne
  refine ⟨⟨b ++ t, ?_⟩, hsegs⟩
  rw [ht, hb]
  rfl

/-- What `dos_to_host` finds below a mounted drive. -/
theorem lookup_below {fs : HostFs} (h : fs.OneCase) {s : Drives} {p base : Str}
    (hm : MountedOn s (dosDrive s p) base) :
    fs.lookup (dosToHost s fs.tree p) = fs.foldFind fs.root (segs base ++ dosNames (dropDrive p)) := by
  obtain ⟨⟨t, ht⟩, hnames⟩ := literalPath_names hm
  rw [lookup_dosToHost h s ht, hnames]

theorem foldFind_upper_tail (fs : HostFs) (d : Nat) (ss ts : List Str) :
    fs.foldFind d (ss ++ ts.map upper) = fs.foldFind d (ss ++ ts) := by
  rw [fs.foldFind_append, fs.foldFind_append]
  cases fs.foldFind d ss with
  | none => rfl
  | some e => exact fs.foldFind_upper e ts

theorem dosNames_append (x y : Str) : dosNames (x ++ '\\' :: y) = dosNames x ++ dosNames y := by
  have hsplit : hostSlashes (x ++ '\\' :: y) = hostSlashes x ++ '/' :: hostSlashes y := by
    simp [hostSlashes]
  rw [dosNames, hsplit, segs_append, dosNames, dosNames]

theorem dosNames_back (x : Str) : dosNames ('\\' :: x) = dosNames x := dosNames_append [] x

theorem dosNames_canon (x : Str) : dosNames (x.map canonChar) = (dosNames x).map upper := by
  rw [dosNames, hostSlashes_canon, segs_upper, dosNames]

/-- AH=60 puts the names of the current directory in front of a relative path. -/
theorem fullPath_relative {s : Dirs} {p : Str} (h : rooted (dropDrive p) = false) :
    ∃ x, fullPath s p = x ++ '\\' :: dropDrive p ∧ dosNames x = dosNames (s.cwd (dosDrive s.toDrives p)) := by
  unfold fullPath
  dsimp only
  rw [h, if_neg Bool.false_ne_true]
  by_cases hnil : s.cwd (dosDrive s.toDrives p) = []
  · rw [if_pos hnil, hnil]
    exact ⟨[], rfl, rfl⟩
  · rw [if_neg hnil]
    by_cases hroot : rooted (s.cwd (dosDrive s.toDrives p)) = true
    · rw [if_pos hroot]
      exact ⟨_, rfl, rfl⟩
    · rw [if_neg hroot]
      exact ⟨'\\' :: s.cwd (dosDrive s.toDrives p), rfl, dosNames_back _⟩

/-! ### The last name -/

def lastPart (s : Str) : Str := (s.reverse.takeWhile (!isSlash ·)).reverse

theorem basenameDos_eq (p : Str) : basenameDos p = lastPart (dropDrive p) := by
  rw [basenameDos, splitLast]
  have happ := List.takeWhile_append_dropWhile (p := (!isSlash ·)) (l := (dropDrive p).reverse)
  cases hdrop : (dropDrive p).reverse.dropWhile (!isSlash ·) with
  | nil =>
    rw [hdrop, List.append_nil] at happ
    rw [lastPart, happ, List.reverse_reverse]
  | cons c head => rfl

theorem lastPart_append (x y : Str) : lastPart (x ++ '\\' :: y) = lastPart y := by
  have hrev : (x ++ '\\' :: y).reverse = y.reverse ++ '\\' :: x.reverse := by
    rw [List.reverse_append, List.reverse_cons, List.append_assoc, List.singleton_append]
  rw [lastPart, hrev, List.takeWhile_append]
  have hstop : ('\\' :: x.reverse).takeWhile (!isSlash ·) = [] := List.takeWhile_cons_of_neg (by decide)
  split
  · rename_i hall
    have hself : y.reverse.takeWhile (!isSlash ·) = y.reverse :=
      (List.takeWhile_prefix _).eq_of_length hall
    rw [hstop, List.append_nil, lastPart, hself]
  · rfl

theorem isSlash_canonChar (c : Char) : isSlash (canonChar c) = isSlash c := by
  by_cases hslash : c = '/'
  · rw [hslash]
    decide
  · have hc : canonChar c = c.toUpper := by
      rw [canonChar, if_neg hslash]
    rw [isSlash, isSlash, hc]
    simp only [toUpper_eq_iff (show ('\\' : Char).isAlpha = false by decide),
      toUpper_eq_iff (show ('/' : Char).isAlpha = false by decide)]

theorem lastPart_canon (y : Str) : lastPart (y.map canonChar) = upper (lastPart y) := by
  have hcomp : ((!isSlash ·) ∘ canonChar) = (!isSlash ·) := by
    funext c
    simp only [Function.comp_apply, isSlash_canonChar]
  rw [lastPart, lastPart, ← List.map_reverse, List.takeWhile_map, hcomp, ← List.map_reverse, upper]
  refine List.map_congr_left fun c hc => ?_
  have hno := List.mem_takeWhile_imp (List.mem_reverse.mp hc)
  have hslash : c ≠ '/' := by
    rintro rfl
    exact absurd hno (by decide)
  rw [canonChar, if_neg hslash]

/-- The canonical path has the last name of the path. -/
theorem basenameDos_canon {s : Dirs} {p : Str} (h : rooted (dropDrive p) = false) :
    basenameDos (canon s p) = upper (basenameDos p) := by
  obtain ⟨x, hx, -⟩ := fullPath_relative (s := s) h
  have hdrop : dropDrive (canon s p) = (fullPath s p).map canonChar := rfl
  have hsplit : (fullPath s p).map canonChar = x.map canonChar ++ '\\' :: (dropDrive p).map canonChar := by
    rw [hx, List.map_append, List.map_cons]
    rfl
  rw [basenameDos_eq, basenameDos_eq, hdrop, hsplit, lastPart_append, lastPart_canon]

theorem isCharDev_canon {s : Dirs} {p : Str} (h : rooted (dropDrive p) = false) :
    isCharDev (canon s p) = isCharDev p := by
  rw [isCharDev, isCharDev, basenameDos_canon h, takeWhile_upper (by decide), HostFs.upper_upper]

/-! ### A host with one path -/

theorem segs_proper {path : Str} : ∀ s ∈ segs path, s ≠ [] ∧ '/' ∉ s := by
  intro s hs
  obtain ⟨hmem, hne⟩ := List.mem_filter.mp hs
  obtain ⟨t, -, rfl⟩ := List.mem_map.mp hmem
  refine ⟨of_decide_eq_true hne, fun hslash => ?_⟩
  have himp := List.mem_takeWhile_imp hslash
  exact absurd himp (by decide)

theorem upper_proper {ss : List Str} (h : ∀ s ∈ ss, s ≠ [] ∧ '/' ∉ s) :
    ∀ s ∈ ss.map upper, s ≠ [] ∧ '/' ∉ s := by
  intro s hs
  obtain ⟨t, ht, rfl⟩ := List.mem_map.mp hs
  obtain ⟨hne, hslash⟩ := h t ht
  refine ⟨fun hnil => hne (List.map_eq_nil_iff.mp hnil), fun hmem => ?_⟩
  obtain ⟨c, hc, hup⟩ := List.mem_map.mp hmem
  exact hslash ((toUpper_eq_iff (by decide)).mp hup ▸ hc)

theorem names_proper (base path : Str) :
    ∀ w ∈ (segs base ++ dosNames path).map upper, w ≠ [] ∧ '/' ∉ w := by
  refine upper_proper fun w hw => ?_
  rcases List.mem_append.mp hw with hw | hw
  · exact segs_proper w hw
  · exact segs_proper w hw

theorem upper_names {ss : List Str} : ∀ w ∈ ss.map upper, upper w = w := by
  intro w hw
  obtain ⟨v, -, rfl⟩ := List.mem_map.mp hw
  exact HostFs.upper_upper v

/-- The directories along one path, and nothing else; the last one may be a file. -/
def pathFs (ws : List Str) (h : ∀ w ∈ ws, w ≠ [] ∧ '/' ∉ w) (lastDir : Bool) : HostFs where
  root := 0
  workDir := 0
  child := fun n s => if ws[n]? = some s then some (n + 1) else none
  names := fun n => ws[n]?.toList
  isDir := fun n => n ≠ ws.length || lastDir
  listed := by
    intro n s
    rw [Option.mem_toList]
    split
    · rename_i hs
      exact ⟨fun _ => Option.some_ne_none _, fun _ => hs⟩
    · rename_i hs
      exact ⟨fun hs' => absurd hs' hs, fun hne => absurd rfl hne⟩
  proper := by
    intro n s hs
    exact h s (List.mem_of_getElem? (Option.mem_toList.mp hs))

variable {ws : List Str} {hws : ∀ w ∈ ws, w ≠ [] ∧ '/' ∉ w} {lastDir : Bool}

theorem pathFs_oneCase : (pathFs ws hws lastDir).OneCase := by
  intro n a b ha hb _
  have hget : ∀ s, (pathFs ws hws lastDir).child n s ≠ none → ws[n]? = some s := by
    intro s hs
    by_contra hne
    exact hs (if_neg hne)
  exact Option.some.inj ((hget a ha).symm.trans (hget b hb))

/-- Only beginnings of the path are found. -/
theorem pathFs_foldFind (hup : ∀ w ∈ ws, upper w = w) : ∀ (us : List Str) (n : Nat),
    (pathFs ws hws lastDir).foldFind n us =
      if us.map upper <+: ws.drop n then some (n + us.length) else none
  | [], n => by
    rw [List.map_nil, if_pos List.nil_prefix]
    rfl
  | u :: us, n => by
    have hstep : (pathFs ws hws lastDir).foldChild n u = if ws[n]? = some (upper u) then some (n + 1) else none := by
      show (ws[n]?.toList.find? fun name => upper name = upper u).bind
        (fun s => if ws[n]? = some s then some (n + 1) else none) = _
      cases hw : ws[n]? with
      | none => rfl
      | some w =>
        have hself : upper w = w := hup w (List.mem_of_getElem? hw)
        simp only [Option.toList_some, List.find?_cons, List.find?_nil, hself, Option.some.injEq]
        by_cases heq : w = upper u
        · simp [heq]
        · simp [heq]
    rw [HostFs.foldFind, List.foldlM_cons, hstep, List.map_cons]
    by_cases hw : ws[n]? = some (upper u)
    · have hdrop : ws.drop n = upper u :: ws.drop (n + 1) := by
        obtain ⟨hlt, hget⟩ := List.getElem?_eq_some_iff.mp hw
        rw [List.drop_eq_getElem_cons hlt, hget]
      rw [if_pos hw, hdrop]
      show (pathFs ws hws lastDir).foldFind (n + 1) us = _
      rw [pathFs_foldFind hup us (n + 1), List.length_cons, Nat.add_right_comm, Nat.add_assoc]
      simp only [List.cons_prefix_cons, true_and]
    · rw [if_neg hw, if_neg fun hpre => ?_]
      · rfl
      · obtain ⟨t, ht⟩ := hpre
        apply hw
        have hget : (ws.drop n)[0]? = some (upper u) := by
          rw [← ht]
          rfl
        rwa [List.getElem?_drop, Nat.add_zero] at hget

/-! ### The paths AH=3D opens -/

/-- The drives are named by upper case letters, and the current one is mounted. -/
structure WellMounted (s : Dirs) : Prop where
  letters : ∀ d, (s.mounted d).isSome → d.toUpper = d
  current : (s.mounted s.current).isSome

theorem WellMounted.drive_upper {s : Dirs} (h : WellMounted s) (p : Str) :
    (dosDrive s.toDrives p).toUpper = dosDrive s.toDrives p := by
  unfold dosDrive
  split
  · exact toUpper_toUpper _
  · exact h.letters _ h.current

/-- What a path opens: the null device, the file of a mapping, or what its names stand for. -/
theorem int21_3D_eq {fs : HostFs} (h : fs.OneCase) {s : Dirs} {p base : Str}
    (hm : MountedOn s.toDrives (dosDrive s.toDrives p) base) :
    int21_3D fs s p = if isCharDev p then .device else
      match exactMapping s.mappings (upper (basenameDos p)) with
      | some m => .file ((fs.lookup m.hostPath).filter fun n => !fs.isDir n)
      | none => .file ((fs.foldFind fs.root (segs base ++ dosNames (dropDrive p))).filter
          fun n => !fs.isDir n) := by
  unfold int21_3D
  rw [PathCall.target]
  by_cases hdev : isCharDev p = true
  · rw [if_pos hdev, if_pos hdev]
  · rw [if_neg hdev, if_neg hdev]
    dsimp only
    rw [resolvePath]
    cases exactMapping s.mappings (upper (basenameDos p)) with
    | none =>
      dsimp only
      rw [lookup_below h hm]
    | some m => rfl

/-- The path is no device and no mapping names its file. -/
def OnDrive (s : Dirs) (p : Str) : Prop :=
  isCharDev p = false ∧ exactMapping s.mappings (upper (basenameDos p)) = none

/-- **A relative path and its canonical path.**  They open the same on every host exactly where the
    drive's current directory has no name in it, or the path is taken for a device or by a
    mapping. -/
theorem canon_opens_iff {s : Dirs} (hs : WellMounted s) {p base : Str} (hrel : rooted (dropDrive p) = false)
    (hm : MountedOn s.toDrives (dosDrive s.toDrives p) base) (hfit : (canon s p).length ≤ 127) :
    (∀ fs : HostFs, fs.OneCase → int21_3D fs s (int21_60 s p) = int21_3D fs s p) ↔
      (OnDrive s p → dosNames (s.cwd (dosDrive s.toDrives p)) = []) := by
  have hwhole : int21_60 s p = canon s p := List.take_of_length_le hfit
  have hdrive : dosDrive s.toDrives (canon s p) = dosDrive s.toDrives p := hs.drive_upper p
  have hm' : MountedOn s.toDrives (dosDrive s.toDrives (canon s p)) base := by
    rw [hdrive]
    exact hm
  have hnames : dosNames (dropDrive (canon s p)) =
      (dosNames (s.cwd (dosDrive s.toDrives p)) ++ dosNames (dropDrive p)).map upper := by
    obtain ⟨x, hx, hcwd⟩ := fullPath_relative (s := s) hrel
    have hdrop : dropDrive (canon s p) = (fullPath s p).map canonChar := rfl
    rw [hdrop, dosNames_canon, hx, dosNames_append, hcwd]
  have hcanon : ∀ fs : HostFs, fs.OneCase → int21_3D fs s (int21_60 s p) =
      if isCharDev p then .device else
        match exactMapping s.mappings (upper (basenameDos p)) with
        | some m => .file ((fs.lookup m.hostPath).filter fun n => !fs.isDir n)
        | none => .file ((fs.foldFind fs.root (segs base ++ (dosNames (s.cwd (dosDrive s.toDrives p)) ++
            dosNames (dropDrive p)))).filter fun n => !fs.isDir n) := by
    intro fs hfs
    rw [hwhole, int21_3D_eq hfs hm', isCharDev_canon hrel, basenameDos_canon hrel, HostFs.upper_upper, hnames,
      foldFind_upper_tail]
  constructor
  · rintro h ⟨hdev, hmap⟩
    by_contra hne
    have hws := names_proper base (dropDrive p)
    have heq := h (pathFs _ hws false) pathFs_oneCase
    rw [hcanon _ pathFs_oneCase, int21_3D_eq pathFs_oneCase hm, hdev, hmap] at heq
    dsimp only at heq
    have hroot : (pathFs ((segs base ++ dosNames (dropDrive p)).map upper) hws false).root = 0 := rfl
    rw [if_neg Bool.false_ne_true, if_neg Bool.false_ne_true, hroot, pathFs_foldFind upper_names,
      pathFs_foldFind upper_names,
      List.drop_zero, if_pos (List.prefix_refl _), if_neg fun hpre => ?_] at heq
    · have hopen := Opened.file.inj heq
      rw [Option.filter_none, Option.filter_some, if_pos] at hopen
      · cases hopen
      · simp [pathFs]
    · have hle := hpre.length_le
      simp only [List.length_map, List.length_append] at hle
      exact hne (List.length_eq_zero_iff.mp (by omega))
  · intro h fs hfs
    rw [hcanon fs hfs, int21_3D_eq hfs hm]
    by_cases hdev : isCharDev p = true
    · rw [if_pos hdev, if_pos hdev]
    · rw [if_neg hdev, if_neg hdev]
      cases hmap : exactMapping s.mappings (upper (basenameDos p)) with
      | some m => rfl
      | none =>
        rw [h ⟨Bool.eq_false_iff.mpr hdev, hmap⟩, List.nil_append]

/-! ### The directory AH=47 reports -/

/-- The canonical path of what AH=47 reports for a drive. -/
def reported (s : Dirs) (drive : Char) : Str :=
  int21_60 s (drive :: ':' :: '\\' :: int21_47 s drive)

/-- After AH=3B on `q`, what AH=47 reports for its drive leads to the directory `q` led to. -/
def Reports (fs : HostFs) (s : Dirs) (q : Str) : Prop :=
  ∀ t, int21_3B fs s q = some t →
    fs.lookup (dosToHost t.toDrives fs.tree (reported t (dosDrive s.toDrives q))) =
      fs.lookup (dosToHost s.toDrives fs.tree q)

/-- What AH=47 will report for the drive of `q`: AH=3B notes `q` under the current drive. -/
def noted (s : Dirs) (q : Str) : Str :=
  (if dosDrive s.toDrives q = s.current then relDir q else s.cwd (dosDrive s.toDrives q)).take 63

theorem noted_eq (s : Dirs) (q : Str) :
    (Function.update s.cwd s.current (relDir q) (dosDrive s.toDrives q)).take 63 = noted s q := by
  rw [noted, Function.update_apply]

/-- **The directory reported.**  It leads where `q` led on every host exactly if its names are those
    of `q`. -/
theorem reports_iff {s : Dirs} (hs : WellMounted s) {q base : Str}
    (hm : MountedOn s.toDrives (dosDrive s.toDrives q) base) :
    (∀ fs : HostFs, fs.OneCase → Reports fs s q) ↔
      (dosNames (noted s q)).map upper = (dosNames (dropDrive q)).map upper := by
  have hreported : ∀ fs : HostFs, fs.OneCase → ∀ t, int21_3B fs s q = some t →
      fs.lookup (dosToHost t.toDrives fs.tree (reported t (dosDrive s.toDrives q))) =
        fs.foldFind fs.root (segs base ++ dosNames (noted s q)) := by
    intro fs hfs t ht
    unfold int21_3B at ht
    split at ht
    swap
    · cases ht
    cases ht
    generalize hd : dosDrive s.toDrives q = d
    have hup : d.toUpper = d := by
      rw [← hd]
      exact hs.drive_upper q
    rw [hd] at hm
    have hnoted : int21_47 { s with cwd := Function.update s.cwd s.current (relDir q) } d = noted s q := by
      rw [← noted_eq, hd]
      rfl
    have hlen : (noted s q).length ≤ 63 := List.length_take_le _ _
    have hcanon : reported { s with cwd := Function.update s.cwd s.current (relDir q) } d =
        d :: ':' :: ('\\' :: noted s q).map canonChar := by
      rw [reported, hnoted, int21_60]
      have hself : canon { s with cwd := Function.update s.cwd s.current (relDir q) }
          (d :: ':' :: '\\' :: noted s q) = d.toUpper :: ':' :: ('\\' :: noted s q).map canonChar := rfl
      rw [hself, hup]
      refine List.take_of_length_le ?_
      simp only [List.length_cons, List.length_map]
      omega
    rw [hcanon]
    have hm' : MountedOn s.toDrives (dosDrive s.toDrives (d :: ':' :: ('\\' :: noted s q).map canonChar))
        base := by
      have hdrive : dosDrive s.toDrives (d :: ':' :: ('\\' :: noted s q).map canonChar) = d.toUpper := rfl
      rw [hdrive, hup]
      exact hm
    refine (lookup_below hfs hm').trans ?_
    have hdrop : dropDrive (d :: ':' :: ('\\' :: noted s q).map canonChar) =
        ('\\' :: noted s q).map canonChar := rfl
    rw [hdrop, dosNames_canon, dosNames_back, foldFind_upper_tail]
  constructor
  · intro h
    have hws := names_proper base (dropDrive q)
    have hfind : ∀ us, (pathFs _ hws true).foldFind (pathFs _ hws true).root us = _ := fun us =>
      pathFs_foldFind upper_names us 0
    have hq : (pathFs _ hws true).lookup (dosToHost s.toDrives (pathFs _ hws true).tree q) =
        some (segs base ++ dosNames (dropDrive q)).length := by
      rw [lookup_below pathFs_oneCase hm, hfind, List.drop_zero, if_pos (List.prefix_refl _), Nat.zero_add]
    have hdir : (pathFs _ hws true).isDirectory (dosToHost s.toDrives (pathFs _ hws true).tree q) = true := by
      rw [HostFs.isDirectory, hq]
      simp [pathFs]
    have hchange : int21_3B (pathFs _ hws true) s q =
        some { s with cwd := Function.update s.cwd s.current (relDir q) } := if_pos hdir
    have heq := h _ pathFs_oneCase _ hchange
    rw [hreported _ pathFs_oneCase _ hchange, hq, hfind, List.drop_zero] at heq
    split at heq
    · rename_i hpre
      have hlen := Option.some.inj heq
      have hall := hpre.eq_of_length (by simpa using hlen)
      rw [List.map_append, List.map_append] at hall
      exact List.append_cancel_left hall
    · cases heq
  · intro h fs hfs t ht
    rw [hreported fs hfs t ht, lookup_below hfs hm, ← foldFind_upper_tail, h, foldFind_upper_tail]

/-! ### Whole runs -/

/-- AH=3B and AH=0E, and file calls, which leave the drives alone. -/
inductive DirEvent where
  | chdir (fs : HostFs) (q : Str)
  | select (dl : Nat)
  | file

def dirStep (s : Dirs) (e : DirEvent) (t : Dirs) : Prop :=
  match e with
  | .chdir fs q => t = (int21_3B fs s q).getD s
  | .select dl => t = int21_0E s dl
  | .file => t = s

theorem WellMounted.step {s t : Dirs} {e : DirEvent} (h : WellMounted s) (hs : dirStep s e t) :
    WellMounted t := by
  cases e with
  | chdir fs q =>
    obtain rfl := hs
    unfold int21_3B
    split
    · exact ⟨h.letters, h.current⟩
    · exact h
  | select dl =>
    obtain rfl := hs
    unfold int21_0E
    dsimp only
    split
    · rename_i hmounted
      exact ⟨h.letters, hmounted⟩
    · exact h
  | file =>
    obtain rfl := hs
    exact h

/-- **Current directories.**  In every state of a run of AH=3B, AH=0E and file calls, and for drives
    mounted on absolute paths: a relative path and its canonical path open the same on every host
    exactly if the current directory of the drive is its root, or the path is a device's or
    mapped; and after AH=3B on `q`, AH=47 leads where `q` led on every host exactly if what is
    noted for its drive has the names of `q`. -/
theorem currentDir_agrees_iff {s₀ s : Dirs} {es : List DirEvent} (h₀ : WellMounted s₀)
    (hrun : Run dirStep s₀ es s) :
    (∀ p base, rooted (dropDrive p) = false → MountedOn s.toDrives (dosDrive s.toDrives p) base →
      (canon s p).length ≤ 127 →
        ((∀ fs : HostFs, fs.OneCase → int21_3D fs s (int21_60 s p) = int21_3D fs s p) ↔
          (OnDrive s p → dosNames (s.cwd (dosDrive s.toDrives p)) = []))) ∧
    ∀ q base, MountedOn s.toDrives (dosDrive s.toDrives q) base →
      ((∀ fs : HostFs, fs.OneCase → Reports fs s q) ↔
        (dosNames (noted s q)).map upper = (dosNames (dropDrive q)).map upper) := by
  have hs : WellMounted s := hrun.invariant (fun _ _ _ => WellMounted.step) h₀
  constructor
  · intro p base hrel hm hfit
    exact canon_opens_iff hs hrel hm hfit
  · intro q base hm
    exact reports_iff hs hm

/-! ### A directory with a subdirectory -/

/-- The names in /dos, SUB and F, and in the root. -/
def subNames : Nat → List Str
  | 0 => ["dos".toList]
  | 1 => ["SUB".toList, "F".toList]
  | _ => []

/-- /dos is 1, /dos/SUB is 2, the file /dos/F is 3. -/
def subChild (d : Nat) (s : Str) : Option Nat :=
  if s ∈ subNames d then some (if s = "dos".toList then 1 else if s = "SUB".toList then 2 else 3) else none

theorem subNames_proper : ∀ d, ∀ s ∈ subNames d, s ≠ [] ∧ '/' ∉ s
  | 0 => by decide
  | 1 => by decide
  | _ + 2 => fun _ hs => absurd hs List.not_mem_nil

def subFs : HostFs where
  root := 0
  workDir := 0
  child := subChild
  names := subNames
  isDir := (· ≠ 3)
  listed := by
    intro d s
    unfold subChild
    split
    · rename_i hs
      exact ⟨fun _ => Option.some_ne_none _, fun _ => hs⟩
    · rename_i hs
      exact ⟨fun hs' => absurd hs' hs, fun hne => absurd rfl hne⟩
  proper := subNames_proper

theorem subFs_oneCase : subFs.OneCase := by
  have hnames : ∀ d, ∀ a ∈ subNames d, ∀ b ∈ subNames d, upper a = upper b → a = b := by
    intro d
    match d with
    | 0 => decide
    | 1 => decide
    | _ + 2 => exact fun _ ha => absurd ha List.not_mem_nil
  intro d a b ha hb
  exact hnames d a ((subFs.listed d a).mpr ha) b ((subFs.listed d b).mpr hb)

/-- C: is /dos, with its root as current directory. -/
def atRoot : Dirs where
  current := 'C'
  mounted := fun d => if d = 'C' then some "/dos".toList else none
  mappings := []
  defaultMode := .auto
  cwd := fun _ => []

def inSub : Dirs := (int21_3B subFs atRoot "SUB".toList).getD atRoot

theorem atRoot_mounted : WellMounted atRoot := by
  constructor
  · intro d hd
    by_cases hc : d = 'C'
    · rw [hc]
      decide
    · simp [atRoot, hc] at hd
  · rfl

theorem run_inSub : Run dirStep atRoot [.chdir subFs "SUB".toList] inSub := .single rfl

/-- In SUB, AH=3D on F opens on some host another file than on the path AH=60 returns. -/
theorem currentDir_agrees_iff_inSub :
    (∀ fs : HostFs, fs.OneCase → int21_3D fs inSub (int21_60 inSub "F".toList) = int21_3D fs inSub "F".toList) ↔
      (OnDrive inSub "F".toList → dosNames (inSub.cwd 'C') = []) := by
  have hm : MountedOn inSub.toDrives (dosDrive inSub.toDrives "F".toList) "/dos".toList :=
    ⟨by decide +kernel, ⟨_, rfl⟩⟩
  have h := (currentDir_agrees_iff atRoot_mounted run_inSub).1 "F".toList "/dos".toList (by decide) hm
    (by decide +kernel)
  exact h

/-- In SUB, F is opened in the directory above, and not under its canonical path. -/
theorem currentDir_ignored : ¬ ∀ s₀ s es, WellMounted s₀ → Run dirStep s₀ es s → ∀ fs : HostFs, fs.OneCase →
    ∀ p, rooted (dropDrive p) = false → int21_3D fs s (int21_60 s p) = int21_3D fs s p := by
  intro h
  have hsame := h atRoot inSub _ atRoot_mounted run_inSub subFs subFs_oneCase "F".toList (by decide)
  exact absurd hsame (by decide +kernel)

end Dosiz.CurrentDir
