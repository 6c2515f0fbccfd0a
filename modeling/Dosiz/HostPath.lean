/-
  Dosiz/HostPath.lean
  ===================
  **From DOS paths to host paths** (`dos_to_host`, `resolve_path` of `bridge.cc`, the file
  mappings of `config.cc`).

  Two resolvers serve the path-taking calls of INT 21h: AH=3C, 3D, 4B and 6C look the name up
  in the file mappings first (`resolvePath`), AH=41, 43 and 56 only walk the drive
  (`dosToHost`).  The two agree exactly where no mapping names the file, or the one that does
  names the file of the drive (`pathCalls_agree_iff`).

  A name is the list of its bytes, each as the character with that code; the path of a call
  is the string the handler has read from the guest.
-/
import Mathlib.Data.List.TakeWhile

namespace Dosiz.HostPath

abbrev Str := List Char

/-! ### Names -/

def upper (s : Str) : Str := s.map Char.toUpper

def isSlash (c : Char) : Bool := c = '\\' || c = '/'

/-- What stands before and after the last character with `p`; `none` if there is none. -/
def splitLast (p : Char → Bool) (s : Str) : Option (Str × Str) :=
  match s.reverse.dropWhile (!p ·) with
  | [] => none
  | _ :: head => some (head.reverse, (s.reverse.takeWhile (!p ·)).reverse)

/-- The path behind a drive letter. -/
def dropDrive : Str → Str
  | _ :: ':' :: path => path
  | path => path

def basenameDos (path : Str) : Str :=
  match splitLast isSlash (dropDrive path) with
  | none => dropDrive path
  | some (_, base) => base

def hasWildcard (s : Str) : Bool := s.any fun c => c = '*' || c = '?'

/-- `glob_match_part` from a place in the name and in the pattern on; `star` is where the
    last `*` of the pattern ends and the name after what it stands for so far.  Every step
    gets on in the pattern or lets the star take one more character. -/
def globFrom : Nat → Str → Str → Option (Str × Str) → Bool
  | 0, _, _, _ => false
  | _ + 1, [], pat, _ => pat.all (· = '*')
  | fuel + 1, c :: name, pat, star =>
    match pat with
    | q :: rest =>
      if q = '?' ∨ q = c then globFrom fuel name rest star
      else if q = '*' then globFrom fuel (c :: name) rest (some (rest, c :: name))
      else retry fuel star
    | [] => retry fuel star
where
  retry (fuel : Nat) : Option (Str × Str) → Bool
    | some (pat, _ :: name) => globFrom fuel name pat (some (pat, name))
    | _ => false

def globMatchPart (name pat : Str) : Bool :=
  globFrom ((name.length + 1) * (pat.length + 1) + 1) name pat none

/-- Name and extension, split at the last dot. -/
def splitExt (s : Str) : Str × Str := (splitLast (· = '.') s).getD (s, [])

def globMatch (name pat : Str) : Bool :=
  if '.' ∈ pat then
    globMatchPart (splitExt name).1 (splitExt pat).1 &&
      globMatchPart (splitExt name).2 (splitExt pat).2
  else globMatchPart name pat

/-! ### The file mappings -/

inductive FileMode where
  | auto
  | text
  | binary
  deriving DecidableEq

structure FileMapping where
  pattern : Str
  hostPath : Str
  mode : FileMode
  deriving DecidableEq

/-- A mapping that carries only a mode has no host path. -/
def FileMapping.modeOnly (m : FileMapping) : Bool := m.hostPath = []

def isBlank (c : Char) : Bool := c = ' ' || c = '\t' || c = '\r' || c = '\n'

def trim (s : Str) : Str := ((s.dropWhile isBlank).reverse.dropWhile isBlank).reverse

def parseMode (s : Str) : FileMode :=
  if s = "text".toList then .text else if s = "binary".toList then .binary else .auto

def isModeWord (s : Str) : Bool :=
  s = "text".toList || s = "binary".toList || s = "auto".toList

/-- The file mapping `key = val` of a configuration file (`load_config_file`). -/
def fileMapping (defaultMode : FileMode) (key val : Str) : FileMapping :=
  if isModeWord val then ⟨key, [], parseMode val⟩
  else
    match splitLast (· = ' ') val with
    | some (path, tail) =>
      if isModeWord tail then ⟨key, trim path, parseMode tail⟩ else ⟨key, val, defaultMode⟩
    | none => ⟨key, val, defaultMode⟩

def kTextExt : List String :=
  ["TXT", "ASM", "S", "C", "H", "CC", "CPP", "CXX", "HPP", "HXX", "INC",
    "CFG", "INI", "BAT", "LOG", "MD", "BAS", "PAS", "PL", "PY", "RB", "RC",
    "DEF", "MAK", "MAP", "LST", "TBL", "SRT", "DAT", "CSV", "XML", "HTML", "HTM",
    "JSON", "YAML", "YML", "SH", "JS", "TS", "TEX", "DIF", "PATCH", "ERR"]

def extIsTextual (base : Str) : Bool :=
  match splitLast (· = '.') base with
  | none => false
  | some (_, ext) => kTextExt.any (·.toList = ext)

def modeIsText (mode : FileMode) (base : Str) : Bool :=
  match mode with
  | .text => true
  | .binary => false
  | .auto => extIsTextual base

/-! ### The resolvers -/

/-- The host directory tree, as `stat` and `readdir` show it. -/
structure HostTree where
  exists_ : Str → Bool
  entries : Str → Option (List Str)

structure Drives where
  current : Char
  mounted : Char → Option Str

structure PathConfig extends Drives where
  mappings : List FileMapping
  defaultMode : FileMode

/-- The suffixes behind the slashes of a path. -/
def afterSlashes : Str → List Str
  | [] => []
  | c :: s => if c = '/' then s :: afterSlashes s else afterSlashes s

/-- The name in the directory that a segment stands for, whatever the case. -/
def matchEntry (tree : HostTree) (parent seg : Str) : Option Str :=
  ((tree.entries parent).getD []).find? fun name => upper name = upper seg

/-- The walk of `dos_to_host`, segment by segment; what is left of the path at each is given.
    A segment without a match ends the walk with the rest of the path as it is. -/
def walk (tree : HostTree) (resolved : Str) : List Str → Str
  | [] => resolved
  | rest :: more =>
    let seg := rest.takeWhile (· ≠ '/')
    if seg = [] then walk tree resolved more
    else
      match matchEntry tree (if resolved = [] then ['/'] else resolved) seg with
      | none => resolved ++ '/' :: rest
      | some name => walk tree (resolved ++ '/' :: name) more

def dosDrive (drives : Drives) : Str → Char
  | d :: ':' :: _ => d.toUpper
  | _ => drives.current

/-- The host path before the walk: the path behind what its drive is mounted on. -/
def literalPath (drives : Drives) (dosPath : Str) : Str :=
  let path := (dropDrive dosPath).map fun c => if c = '\\' then '/' else c
  let base := (drives.mounted (dosDrive drives dosPath)).getD []
  match path with
  | [] => base
  | '/' :: _ => base ++ path
  | _ => if base = [] then path else base ++ '/' :: path

/-- `dos_to_host` -/
def dosToHost (drives : Drives) (tree : HostTree) (dosPath : Str) : Str :=
  let literal := literalPath drives dosPath
  if tree.exists_ literal then literal
  else
    let resolved := match literal with
      | '/' :: rest => walk tree [] (rest :: afterSlashes rest)
      | _ => walk tree [] (literal :: afterSlashes literal)
    if resolved = [] then literal else resolved

structure Resolved where
  hostPath : Str
  textMode : Bool
  deriving DecidableEq

/-- The mapping names the file exactly, not by wildcards. -/
def FileMapping.names (base : Str) (m : FileMapping) : Bool :=
  !hasWildcard m.pattern && upper m.pattern = base

def exactMapping (mappings : List FileMapping) (base : Str) : Option FileMapping :=
  mappings.find? (·.names base)

def wildcardMode (cfg : PathConfig) (base : Str) : FileMode :=
  match cfg.mappings.find? fun m => hasWildcard m.pattern && globMatch base (upper m.pattern) with
  | some m => m.mode
  | none => cfg.defaultMode

/-- `resolve_path` -/
def resolvePath (cfg : PathConfig) (tree : HostTree) (dosPath : Str) : Resolved :=
  let base := upper (basenameDos dosPath)
  match exactMapping cfg.mappings base with
  | some m => ⟨m.hostPath, modeIsText m.mode base⟩
  | none => ⟨dosToHost cfg.toDrives tree dosPath, modeIsText (wildcardMode cfg base) base⟩

/-! ### The calls -/

def charDevices : List String :=
  ["EMMXXXX0", "XMSXXXX0", "CON", "NUL", "AUX", "PRN", "CLOCK$"]

/-- AH=3D: the names of character devices, with any path and extension. -/
def isCharDev (dosPath : Str) : Bool :=
  charDevices.any (·.toList = upper ((basenameDos dosPath).takeWhile (· ≠ '.')))

/-- What a call takes its path for: a file of the host, or a character device. -/
inductive Target where
  | file (path : Str)
  | device
  deriving DecidableEq

/-- The path-taking calls: AH=3C, 3D, 4B, 6C, 41, 43, and the two paths of 56. -/
inductive PathCall where
  | create
  | open_
  | exec
  | extendedOpen
  | unlink
  | attributes
  | renameOld
  | renameNew
  deriving DecidableEq

def PathCall.target (cfg : PathConfig) (tree : HostTree) (p : Str) : PathCall → Target
  | .create => .file (resolvePath cfg tree p).hostPath
  | .open_ => if isCharDev p then .device else .file (resolvePath cfg tree p).hostPath
  | .exec => .file (resolvePath cfg tree p).hostPath
  | .extendedOpen => .file (resolvePath cfg tree p).hostPath
  | .unlink => .file (dosToHost cfg.toDrives tree p)
  | .attributes => .file (dosToHost cfg.toDrives tree p)
  | .renameOld => .file (dosToHost cfg.toDrives tree p)
  | .renameNew => .file (dosToHost cfg.toDrives tree p)

/-! ### Mappings that carry only a mode -/

theorem trim_eq_nil {s : Str} (h : trim s = []) : s.dropWhile isBlank = [] := by
  cases hd : s.dropWhile isBlank with
  | nil => rfl
  | cons c rest =>
    have hc : isBlank c = false := by
      have hne : s.dropWhile isBlank ≠ [] := by simp [hd]
      have hhead := List.head_dropWhile_not isBlank hne
      simpa [hd] using hhead
    rw [trim, hd, List.reverse_eq_nil_iff, List.reverse_cons] at h
    have hblank := List.dropWhile_eq_nil_iff.mp h c (by simp)
    exact absurd hblank (by simp [hc])

theorem splitLast_append {p : Char → Bool} {s head tail : Str}
    (h : splitLast p s = some (head, tail)) : ∃ c, p c = true ∧ s = head ++ c :: tail := by
  have hs := List.takeWhile_append_dropWhile (p := (!p ·)) (l := s.reverse)
  cases hd : s.reverse.dropWhile (!p ·) with
  | nil => simp [splitLast, hd] at h
  | cons c rest =>
    simp only [splitLast, hd, Option.some.injEq, Prod.mk.injEq] at h
    obtain ⟨rfl, rfl⟩ := h
    refine ⟨c, ?_, ?_⟩
    · have hne : s.reverse.dropWhile (!p ·) ≠ [] := by simp [hd]
      have hhead := List.head_dropWhile_not (!p ·) hne
      simpa [hd] using hhead
    · rw [hd] at hs
      have hrev := congrArg List.reverse hs
      simp only [List.reverse_append, List.reverse_cons, List.reverse_reverse,
        List.append_assoc, List.singleton_append] at hrev
      exact hrev.symm

/-- A value without blanks in front comes to a mapping without a path only where it is a mode
    alone, or empty. -/
theorem fileMapping_modeOnly_iff {defaultMode : FileMode} {key val : Str}
    (hval : ∀ c ∈ val.head?, isBlank c = false) :
    (fileMapping defaultMode key val).modeOnly = true ↔ isModeWord val = true ∨ val = [] := by
  by_cases hword : isModeWord val = true
  · simp [fileMapping, FileMapping.modeOnly, hword]
  · cases hsplit : splitLast (· = ' ') val with
    | none => simp [fileMapping, FileMapping.modeOnly, hword, hsplit]
    | some parts =>
      obtain ⟨path, tail⟩ := parts
      obtain ⟨c, hc, rfl⟩ := splitLast_append hsplit
      have htrim : trim path ≠ [] := by
        intro h
        cases path with
        | nil =>
          have hblank := hval c (by simp)
          simp only [decide_eq_true_eq] at hc
          rw [hc] at hblank
          exact absurd hblank (by decide)
        | cons a path =>
          have ha := hval a (by simp)
          have hdrop := trim_eq_nil h
          rw [List.dropWhile_cons_of_neg (by simp [ha])] at hdrop
          exact absurd hdrop (by simp)
      by_cases htail : isModeWord tail = true
      · simp [fileMapping, FileMapping.modeOnly, hword, hsplit, htail, htrim]
      · simp [fileMapping, FileMapping.modeOnly, hword, hsplit, htail]

/-! ### When the resolvers agree -/

/-- The mappings without some that carry only a mode. -/
def PathConfig.keeping (cfg : PathConfig) (keep : FileMapping → Bool) : PathConfig :=
  { cfg with mappings := cfg.mappings.filter keep }

@[simp]
theorem keeping_toDrives (cfg : PathConfig) (keep : FileMapping → Bool) :
    (cfg.keeping keep).toDrives = cfg.toDrives := rfl

/-- All the calls take `p` for the same file, and dropping mappings that carry only a mode
    changes it for none of them. -/
def OneFile (cfg : PathConfig) (tree : HostTree) (p : Str) : Prop :=
  (∀ c c', PathCall.target cfg tree p c = PathCall.target cfg tree p c') ∧
    ∀ keep : FileMapping → Bool, (∀ m, m.modeOnly = false → keep m = true) →
      ∀ c, PathCall.target (cfg.keeping keep) tree p c = PathCall.target cfg tree p c

/-- The mapping that names the file, if any, names the file of the drive. -/
def MapsToDrive (cfg : PathConfig) (tree : HostTree) (p : Str) : Prop :=
  ∀ m ∈ exactMapping cfg.mappings (upper (basenameDos p)),
    m.hostPath = dosToHost cfg.toDrives tree p

theorem resolvePath_eq_iff (cfg : PathConfig) (tree : HostTree) (p : Str) :
    (resolvePath cfg tree p).hostPath = dosToHost cfg.toDrives tree p ↔
      MapsToDrive cfg tree p := by
  cases h : exactMapping cfg.mappings (upper (basenameDos p)) <;>
    simp [resolvePath, MapsToDrive, h]

/-- With some of the mappings without a path gone, the first exact one is the first with a path,
    or again one without. -/
theorem exactMapping_filter {mappings : List FileMapping} {base path : Str}
    {keep : FileMapping → Bool} (hkeep : ∀ m, m.modeOnly = false → keep m = true)
    (hall : ∀ m ∈ exactMapping mappings base, m.hostPath = path)
    (hpaths : ∀ m ∈ exactMapping (mappings.filter (!·.modeOnly)) base, m.hostPath = path) :
    ∀ m ∈ exactMapping (mappings.filter keep) base, m.hostPath = path := by
  intro m hm
  rw [Option.mem_def, exactMapping, List.find?_filter, List.find?_eq_some_iff_append] at hm
  obtain ⟨hm, before, after, rfl, hbefore⟩ := hm
  simp only [decide_eq_true_eq] at hm
  -- a mapping before `m` that names the file has been dropped, so it has no path
  have hdropped : ∀ a ∈ before, a.names base = true → a.modeOnly = true := by
    intro a ha hnames
    by_contra hyes
    have hkept := hkeep a (by simpa using hyes)
    have hnot := hbefore a ha
    simp [hkept, hnames] at hnot
  by_cases hmode : m.modeOnly = true
  · have hfirst : ∃ first, first.modeOnly = true ∧
        exactMapping (before ++ m :: after) base = some first := by
      rw [exactMapping, List.find?_append]
      cases hfind : before.find? (·.names base) with
      | none => exact ⟨m, hmode, by simp [hm.2]⟩
      | some a =>
        have ha := hdropped a (List.mem_of_find?_eq_some hfind)
          (by simpa using List.find?_some hfind)
        exact ⟨a, ha, by simp⟩
    obtain ⟨first, hno, hfind⟩ := hfirst
    have hpath := hall first hfind
    simp only [FileMapping.modeOnly, decide_eq_true_eq] at hno hmode
    rw [← hpath, hno, hmode]
  · refine hpaths m ?_
    rw [Option.mem_def, exactMapping, List.find?_filter, List.find?_eq_some_iff_append]
    refine ⟨by simpa [hmode] using hm.2, before, after, rfl, ?_⟩
    intro a ha
    cases hnames : a.names base with
    | false => simp
    | true => simp [hdropped a ha hnames]

/-- The calls take a path for one file, whatever mappings carry only a mode, exactly where it is
    no character device and the mapping that names it, if there is one, names the file of
    the drive; with all the mappings, and with those that have a path. -/
theorem pathCalls_agree_iff (cfg : PathConfig) (tree : HostTree) (p : Str) :
    OneFile cfg tree p ↔
      isCharDev p = false ∧ MapsToDrive cfg tree p ∧
        MapsToDrive (cfg.keeping (!·.modeOnly)) tree p := by
  constructor
  · rintro ⟨hsame, hmode⟩
    have hunlink := hsame .create .unlink
    simp only [PathCall.target, Target.file.injEq] at hunlink
    have hopen := hsame .open_ .create
    have hkept := hmode (!·.modeOnly) (by intro m hm; simp [hm]) .create
    simp only [PathCall.target, Target.file.injEq] at hkept
    refine ⟨?_, (resolvePath_eq_iff cfg tree p).mp hunlink, ?_⟩
    · cases hdev : isCharDev p with
      | false => rfl
      | true => simp [PathCall.target, hdev] at hopen
    · exact (resolvePath_eq_iff _ tree p).mp (hkept.trans hunlink)
  · rintro ⟨hdev, hall, hpaths⟩
    have hdrive : ∀ keep : FileMapping → Bool, (∀ m, m.modeOnly = false → keep m = true) →
        ∀ c, PathCall.target (cfg.keeping keep) tree p c =
          .file (dosToHost cfg.toDrives tree p) := by
      intro keep hkeep c
      have hmaps : MapsToDrive (cfg.keeping keep) tree p :=
        exactMapping_filter hkeep hall hpaths
      have hpath := (resolvePath_eq_iff (cfg.keeping keep) tree p).mpr hmaps
      cases c <;> simp [PathCall.target, hdev, hpath]
    have hself : cfg.keeping (fun _ => true) = cfg := by
      cases cfg
      simp [PathConfig.keeping]
    have hcfg := hdrive (fun _ => true) (fun _ _ => rfl)
    rw [hself] at hcfg
    constructor
    · intro c c'
      rw [hcfg c, hcfg c']
    · intro keep hkeep c
      rw [hdrive keep hkeep c, hcfg c]

/-- One drive, C: on `/dos`, with an empty directory there; `README.TXT = text` maps a file. -/
def readmeConfig : PathConfig where
  current := 'C'
  mounted := fun d => if d = 'C' then some "/dos".toList else none
  mappings := [fileMapping .auto "README.TXT".toList "text".toList]
  defaultMode := .auto

def readmeTree : HostTree where
  exists_ := fun p => p = "/dos".toList || p = "/dos/README.TXT".toList
  entries := fun p =>
    if p = "/dos".toList then some [".".toList, "..".toList, "README.TXT".toList] else none

/-- Opening the file looks for a host file without a name, deleting it for the right one. -/
theorem readme_two_files :
    ¬ ∀ (cfg : PathConfig) (tree : HostTree) (p : Str), OneFile cfg tree p := by
  intro h
  have hcalls := (h readmeConfig readmeTree "C:\\README.TXT".toList).1 .open_ .unlink
  exact absurd hcalls (by decide +kernel)

end Dosiz.HostPath
