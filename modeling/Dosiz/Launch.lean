/-
  Dosiz/Launch.lean
  =================
  **From the command line to a configuration** (`main` of `dosiz.cc`, `resolve_program_path` and
  `sidecar_cfg` of `config.cc`).

  A program named without a directory is looked for in the working directory and then in those of
  `DOSIZ_PATH`; a configuration file beside it is loaded over the options of the command line, but the path found
  and the arguments of the command line stand.  `resolveProgramPath_iff` says which file the search comes
  to, `launch_config` which configuration the program runs with.
-/
import Dosiz.ConfigText

namespace Dosiz.Launch

open HostPath ConfigFile ConfigText

/-! ### The search -/

/-- What the host has: `readdir` of a directory that can be opened, in its order, the regular files, the
    `DOSIZ_PATH`, the environment, and the text of a file that can be opened. -/
structure LaunchHost where
  listing : Str → Option (List Str)
  isFile : Str → Bool
  path : Option Str
  env : Str → Option Str
  text : Str → Option Str

def hasPathSep (s : Str) : Bool := s.any fun c => c = '/' || c = '\\'

def hasComOrExe (s : Str) : Bool :=
  let tail := upper (s.drop (s.length - 4))
  4 ≤ s.length && (tail = ".COM".toList || tail = ".EXE".toList)

/-- `dir.empty() ? hit : dir + "/" + hit` -/
def inDir (dir hit : Str) : Str := if dir = [] then hit else dir ++ '/' :: hit

/-- One turn of the loop of `find_in_dir`: `best_com` and `best_exe`. -/
def findStep (want : Str) (best : Str × Str) (entry : Str) : Str × Str :=
  if entry.length ≠ want.length + 4 then best
  else if (upper entry).take want.length ≠ want then best
  else
    let ext := (upper entry).drop want.length
    if ext = ".COM".toList ∧ best.1 = [] then (entry, best.2)
    else if ext = ".EXE".toList ∧ best.2 = [] then (best.1, entry)
    else best

/-- `opendir`, with the working directory for no directory. -/
def LaunchHost.entries (h : LaunchHost) (dir : Str) : List Str :=
  (h.listing (if dir = [] then ['.'] else dir)).getD []

/-- `find_in_dir`; the empty string is a miss. -/
def findInDir (h : LaunchHost) (dir name : Str) : Str :=
  let best := (h.entries dir).foldl (findStep (upper name)) ([], [])
  let hit := if best.1 ≠ [] then best.1 else best.2
  if hit = [] then [] else inDir dir hit

/-- `find_exact_in_dir` -/
def findExactInDir (h : LaunchHost) (dir name : Str) : Str :=
  let hit := ((h.entries dir).find? fun e => upper e = upper name).getD []
  if hit = [] then [] else inDir dir hit

/-- The loop over `DOSIZ_PATH`, with the directory it is reading. -/
def pathDirs : Str → Str → List Str
  | dir, [] => if dir = [] then [] else [dir]
  | dir, c :: s => if c = ':' then (if dir = [] then [] else [dir]) ++ pathDirs [] s else pathDirs (dir ++ [c]) s

def resolveProgramPath (h : LaunchHost) (name : Str) : Option Str :=
  if hasPathSep name then (if h.isFile name then some name else none)
  else ([] :: h.path.elim [] (pathDirs [])).findSome? fun dir =>
    let hit := if hasComOrExe name then findExactInDir h dir name else findInDir h dir name
    if hit = [] then none else some hit

/-! ### The command line -/

def sidecarCfg (h : LaunchHost) (path : Str) : Option Str :=
  match splitLast (· = '.') path with
  | none => none
  | some (stem, _) =>
    if h.isFile (stem ++ ".cfg".toList) then some (stem ++ ".cfg".toList)
    else if h.isFile (stem ++ ".CFG".toList) then some (stem ++ ".CFG".toList)
    else none

def endsWith (s suffix : Str) : Bool :=
  suffix.length ≤ s.length && (s.drop (s.length - suffix.length)).map Char.toLower = suffix.map Char.toLower

def isConfig (name : Str) : Bool := endsWith name ".cfg".toList || endsWith name ".conf".toList

/-- What `main` comes to. -/
inductive Outcome where
  | help | version | usage | noProgram
  | unknownOption (a : Str)
  | cannotOpen (file : Str)
  | cannotFind (name : Str)
  | run (cfg : Config)
deriving DecidableEq

/-- The loop over the options: what is left of the arguments, and the configuration. -/
def options : List Str → Config → Except Outcome (List Str × Config)
  | [], cfg => .ok ([], cfg)
  | a :: as, cfg =>
    if a = "--help".toList ∨ a = "-h".toList then .error .help
    else if a = "--version".toList then .error .version
    else if a = "--window".toList then options as { cfg with headless := false }
    else if a = "--verbose".toList ∨ a = "-v".toList then options as { cfg with verbose := 1 }
    else if "--machine=".toList <+: a then options as { cfg with machine := a.drop 10 }
    else if "--cpu=".toList <+: a then options as { cfg with cputype := a.drop 6 }
    else if "--memsize=".toList <+: a then options as { cfg with memsizeMb := atoi (a.drop 10) }
    else if a = "--".toList then .ok (as, cfg)
    else if 1 < a.length ∧ a.head? = some '-' then .error (.unknownOption a)
    else .ok (a :: as, cfg)

/-- The end of `main`: a program is run if there is one. -/
def started (cfg : Config) : Outcome := if cfg.program = [] then .noProgram else .run cfg

/-- `load_config_file`, with the arguments that follow on the command line. -/
def loaded (h : LaunchHost) (file : Str) (cfg : Config) (rest : List Str) (program : Str → Str) : Outcome :=
  match h.text file with
  | none => .cannotOpen file
  | some text =>
    let cfg := (loadConfigFile h.env text cfg).cfg
    started { cfg with program := program cfg.program, args := cfg.args ++ rest }

/-- `main`, from `argv[1]` on. -/
def launch (h : LaunchHost) (argv : List Str) : Outcome :=
  match options argv newConfig with
  | .error o => o
  | .ok ([], _) => .usage
  | .ok (first :: rest, cfg) =>
    if isConfig first then loaded h first cfg rest id
    else
      match resolveProgramPath h first with
      | none => .cannotFind first
      | some path =>
        match sidecarCfg h path with
        | some file => loaded h file cfg rest fun _ => path
        | none => started { cfg with program := path, args := cfg.args ++ rest }

/-! ### What the search finds -/

/-- The first of the entries with `p`. -/
def FirstIn (p : Str → Prop) (es : List Str) (e : Str) : Prop :=
  ∃ before after, es = before ++ e :: after ∧ p e ∧ ∀ x ∈ before, ¬ p x

/-- What a directory has for `name`: with an extension the file itself, without one the `.COM` before the `.EXE`. -/
def Chosen (name : Str) (es : List Str) (e : Str) : Prop :=
  if hasComOrExe name then FirstIn (fun x => upper x = upper name) es e
  else FirstIn (fun x => upper x = upper name ++ ".COM".toList) es e ∨
    (∀ x ∈ es, upper x ≠ upper name ++ ".COM".toList) ∧ FirstIn (fun x => upper x = upper name ++ ".EXE".toList) es e

/-- The working directory, and the directories of `DOSIZ_PATH` that are not empty. -/
def searched (h : LaunchHost) : List Str :=
  [] :: ((h.path.getD []).splitOn ':').filter (· ≠ [])

section Search

variable {want entry name e : Str} {best : Str × Str} {es : List Str}

theorem firstIn_iff (p : Str → Prop) [DecidablePred p] : FirstIn p es e ↔ es.find? (fun x => decide (p x)) = some e := by
  rw [List.find?_eq_some_iff_append]
  constructor
  · rintro ⟨before, after, rfl, he, hbefore⟩
    exact ⟨decide_eq_true he, before, after, rfl, fun x hx => by simpa using hbefore x hx⟩
  · rintro ⟨he, before, after, rfl, hbefore⟩
    exact ⟨before, after, rfl, of_decide_eq_true he, fun x hx => by simpa using hbefore x hx⟩

theorem upper_length (s : Str) : (upper s).length = s.length := List.length_map _

/-- The two tests of the loop. -/
theorem findStep_eq (want : Str) (best : Str × Str) (entry : Str) : findStep want best entry =
    if upper entry = want ++ ".COM".toList ∧ best.1 = [] then (entry, best.2)
    else if upper entry = want ++ ".EXE".toList ∧ best.2 = [] then (best.1, entry)
    else best := by
  have hsplit : ∀ ext : Str, ext.length = 4 → (upper entry = want ++ ext ↔
      entry.length = want.length + 4 ∧ (upper entry).take want.length = want ∧ (upper entry).drop want.length = ext) := by
    intro ext hext
    constructor
    · intro h
      refine ⟨?_, ?_, ?_⟩
      · rw [← upper_length, h, List.length_append, hext]
      · rw [h, List.take_left]
      · rw [h, List.drop_left]
    · rintro ⟨-, htake, hdrop⟩
      rw [← List.take_append_drop want.length (upper entry), htake, hdrop]
  have hcom := hsplit ".COM".toList rfl
  have hexe := hsplit ".EXE".toList rfl
  unfold findStep
  by_cases hlen : entry.length = want.length + 4
  · rw [if_neg (not_not.mpr hlen)]
    by_cases htake : (upper entry).take want.length = want
    · rw [if_neg (not_not.mpr htake)]
      simp only [hcom, hexe, hlen, htake, true_and]
    · rw [if_pos htake, if_neg fun h => htake (hcom.mp h.1).2.1, if_neg fun h => htake (hexe.mp h.1).2.1]
  · rw [if_pos hlen, if_neg fun h => hlen (hcom.mp h.1).1, if_neg fun h => hlen (hexe.mp h.1).1]

theorem ne_nil_of_ext (ext : Str) (hext : ext ≠ []) (h : upper entry = want ++ ext) : entry ≠ [] := by
  rintro rfl
  exact hext (List.append_eq_nil_iff.mp h.symm).2

/-- The loop keeps the first `.COM` and the first `.EXE`. -/
theorem find_fold (want : Str) (es : List Str) (best : Str × Str) : es.foldl (findStep want) best =
    (if best.1 = [] then (es.find? fun x => decide (upper x = want ++ ".COM".toList)).getD [] else best.1,
      if best.2 = [] then (es.find? fun x => decide (upper x = want ++ ".EXE".toList)).getD [] else best.2) := by
  induction es generalizing best with
  | nil =>
    obtain ⟨com, exe⟩ := best
    simp only [List.foldl_nil, List.find?_nil, Option.getD_none]
    congr 1
    · split
      · assumption
      · rfl
    · split
      · assumption
      · rfl
  | cons x es ih =>
    rw [List.foldl_cons, ih, findStep_eq, List.find?_cons, List.find?_cons]
    by_cases hcom : upper x = want ++ ".COM".toList
    · have hne : x ≠ [] := ne_nil_of_ext ".COM".toList (by decide) hcom
      have hexe : upper x ≠ want ++ ".EXE".toList := by
        rw [hcom]
        intro h
        exact absurd (List.append_cancel_left h) (by decide)
      by_cases hbest : best.1 = []
      · simp [hcom, hbest, hne]
      · simp [hcom, hbest]
    · by_cases hexe : upper x = want ++ ".EXE".toList
      · have hne : x ≠ [] := ne_nil_of_ext ".EXE".toList (by decide) hexe
        by_cases hbest : best.2 = []
        · simp [hexe, hbest, hne]
        · simp [hexe, hbest]
      · have hkeep : (if upper x = want ++ ".COM".toList ∧ best.1 = [] then (x, best.2)
            else if upper x = want ++ ".EXE".toList ∧ best.2 = [] then (best.1, x) else best) = best := by
          rw [if_neg (fun h => hcom h.1), if_neg (fun h => hexe h.1)]
        rw [hkeep, decide_eq_false hcom, decide_eq_false hexe]

theorem inDir_ne_nil {dir hit : Str} (h : hit ≠ []) : inDir dir hit ≠ [] := by
  unfold inDir
  split
  · exact h
  · simp

/-- What the loop over the directories takes from `dir`. -/
def dirHit (h : LaunchHost) (name dir : Str) : Option Str :=
  let hit := if hasComOrExe name then findExactInDir h dir name else findInDir h dir name
  if hit = [] then none else some hit

theorem dirHit_exact {h : LaunchHost} {dir : Str} (hext : hasComOrExe name = true) (x : Str) :
    dirHit h name dir = some x ↔ ∃ e, Chosen name (h.entries dir) e ∧ x = inDir dir e := by
  have hlen : 4 ≤ name.length := by
    rw [hasComOrExe, Bool.and_eq_true] at hext
    exact of_decide_eq_true hext.1
  have hne : ∀ e : Str, upper e = upper name → e ≠ [] := by
    rintro e he rfl
    have hzero := congrArg List.length he
    rw [upper_length, upper_length, List.length_nil] at hzero
    omega
  have hchosen : ∀ e, Chosen name (h.entries dir) e ↔
      (h.entries dir).find? (fun e => decide (upper e = upper name)) = some e := by
    intro e
    rw [Chosen, if_pos hext]
    exact firstIn_iff _
  simp only [hchosen, dirHit, findExactInDir, if_pos hext]
  cases hfind : (h.entries dir).find? fun e => decide (upper e = upper name) with
  | none => simp
  | some e =>
    have he : e ≠ [] := hne e (by simpa using List.find?_some hfind)
    have hhit : inDir dir e ≠ [] := inDir_ne_nil he
    simp only [Option.getD_some, if_neg he, if_neg hhit, Option.some.injEq]
    constructor
    · rintro rfl
      exact ⟨e, rfl, rfl⟩
    · rintro ⟨e', rfl, rfl⟩
      rfl

theorem dirHit_search {h : LaunchHost} {dir : Str} (hext : hasComOrExe name = false) (x : Str) :
    dirHit h name dir = some x ↔ ∃ e, Chosen name (h.entries dir) e ∧ x = inDir dir e := by
  have hnot : ¬ hasComOrExe name = true := by simp [hext]
  have hchosen : ∀ e, Chosen name (h.entries dir) e ↔
      (h.entries dir).find? (fun x => decide (upper x = upper name ++ ".COM".toList)) = some e ∨
        (h.entries dir).find? (fun x => decide (upper x = upper name ++ ".COM".toList)) = none ∧
          (h.entries dir).find? (fun x => decide (upper x = upper name ++ ".EXE".toList)) = some e := by
    intro e
    rw [Chosen, if_neg hnot, firstIn_iff, firstIn_iff, List.find?_eq_none]
    simp only [decide_eq_true_eq]
  simp only [hchosen, dirHit, findInDir, if_neg hnot, find_fold, if_true]
  cases hcom : (h.entries dir).find? fun x => decide (upper x = upper name ++ ".COM".toList) with
  | some e =>
    have he : e ≠ [] := ne_nil_of_ext ".COM".toList (by decide) (by simpa using List.find?_some hcom)
    rw [Option.getD_some, if_pos he, if_neg he, if_neg (inDir_ne_nil he)]
    constructor
    · intro hx
      exact ⟨e, Or.inl rfl, (Option.some.inj hx).symm⟩
    · rintro ⟨e', hsome | ⟨hnone, -⟩, rfl⟩
      · rw [Option.some.inj hsome]
      · cases hnone
  | none =>
    cases hexe : (h.entries dir).find? fun x => decide (upper x = upper name ++ ".EXE".toList) with
    | none => simp
    | some e =>
      have he : e ≠ [] := ne_nil_of_ext ".EXE".toList (by decide) (by simpa using List.find?_some hexe)
      rw [Option.getD_none, Option.getD_some, if_neg (not_not.mpr rfl), if_neg he, if_neg (inDir_ne_nil he)]
      constructor
      · intro hx
        exact ⟨e, Or.inr ⟨rfl, rfl⟩, (Option.some.inj hx).symm⟩
      · rintro ⟨e', hsome | ⟨-, hsome⟩, rfl⟩
        · cases hsome
        · rw [Option.some.inj hsome]

theorem dirHit_iff (h : LaunchHost) (name dir x : Str) :
    dirHit h name dir = some x ↔ ∃ e, Chosen name (h.entries dir) e ∧ x = inDir dir e := by
  cases hext : hasComOrExe name with
  | true => exact dirHit_exact hext x
  | false => exact dirHit_search hext x

/-- The loop over `DOSIZ_PATH` comes to its pieces that are not empty. -/
theorem pathDirs_eq {dir : Str} (hdir : ':' ∉ dir) (s : Str) :
    pathDirs dir s = ((dir ++ s).splitOn ':').filter (· ≠ []) := by
  have hfree : ∀ {d : Str}, ':' ∉ d → ∀ c ∈ d, (c == ':') = false := by
    intro d hd c hc
    rw [beq_eq_false_iff_ne]
    rintro rfl
    exact hd hc
  induction s generalizing dir with
  | nil =>
    rw [pathDirs, List.append_nil, List.splitOn_eq_splitOnP, List.splitOnP_eq_singleton (hfree hdir)]
    by_cases h : dir = [] <;> simp [h]
  | cons c s ih =>
    rw [pathDirs]
    split
    · rename_i hc
      subst hc
      rw [ih List.not_mem_nil, List.splitOn_eq_splitOnP, List.splitOn_eq_splitOnP,
        List.splitOnP_append_cons_of_forall_mem (hfree hdir) ':' rfl]
      by_cases h : dir = [] <;> simp [h]
    · rename_i hc
      have hnext : ':' ∉ dir ++ [c] := by
        rw [List.mem_append, List.mem_singleton]
        rintro (h | h)
        · exact hdir h
        · exact hc h.symm
      rw [ih hnext, List.append_assoc, List.singleton_append]

theorem searched_eq (h : LaunchHost) : searched h = [] :: h.path.elim [] (pathDirs []) := by
  rw [searched]
  cases h.path with
  | none => rfl
  | some s => rw [Option.elim_some, pathDirs_eq List.not_mem_nil, Option.getD_some, List.nil_append]

/-- **Which file a program name comes to**: one with a directory is the file itself; any other is looked for in the
    working directory and then in the directories of `DOSIZ_PATH`, and the first that has one decides: with an
    extension by the first entry of that name in any case, without one by the first `.COM`, and by the first
    `.EXE` only where there is no `.COM`. -/
theorem resolveProgramPath_iff (h : LaunchHost) (name x : Str) :
    resolveProgramPath h name = some x ↔
      if hasPathSep name then h.isFile name = true ∧ x = name
      else ∃ before dir after e, searched h = before ++ dir :: after ∧
        (∀ d ∈ before, ∀ y, ¬ Chosen name (h.entries d) y) ∧ Chosen name (h.entries dir) e ∧ x = inDir dir e := by
  rw [resolveProgramPath]
  by_cases hsep : hasPathSep name = true
  · rw [if_pos hsep, if_pos hsep]
    split_ifs with hfile
    · rw [Option.some.injEq]
      exact ⟨fun hx => ⟨hfile, hx.symm⟩, fun hx => hx.2.symm⟩
    · exact ⟨fun hx => absurd hx (by simp), fun hx => absurd hx.1 hfile⟩
  · have hnone : ∀ d, dirHit h name d = none ↔ ∀ y, ¬ Chosen name (h.entries d) y := by
      intro d
      rw [Option.eq_none_iff_forall_ne_some]
      constructor
      · intro hd y hy
        exact hd (inDir d y) ((dirHit_iff h name d _).mpr ⟨y, hy, rfl⟩)
      · intro hd y hy
        obtain ⟨e, he, -⟩ := (dirHit_iff h name d y).mp hy
        exact hd e he
    rw [if_neg hsep, if_neg hsep, ← searched_eq]
    change (searched h).findSome? (dirHit h name) = some x ↔ _
    rw [List.findSome?_eq_some_iff]
    constructor
    · rintro ⟨before, dir, after, hsplit, hhit, hbefore⟩
      obtain ⟨e, he, hx⟩ := (dirHit_iff h name dir x).mp hhit
      exact ⟨before, dir, after, e, hsplit, fun d hd => (hnone d).mp (hbefore d hd), he, hx⟩
    · rintro ⟨before, dir, after, e, hsplit, hbefore, he, hx⟩
      exact ⟨before, dir, after, hsplit, (dirHit_iff h name dir x).mpr ⟨e, he, hx⟩,
        fun d hd => (hnone d).mpr (hbefore d hd)⟩

end Search

/-! ### What the program runs with -/

/-- The options that set something. -/
inductive Opt where
  | window | verbose
  | machine (v : Str)
  | cpu (v : Str)
  | memsize (v : Str)

def Opt.text : Opt → Str
  | .window => "--window".toList
  | .verbose => "--verbose".toList
  | .machine v => "--machine=".toList ++ v
  | .cpu v => "--cpu=".toList ++ v
  | .memsize v => "--memsize=".toList ++ v

def Opt.set (cfg : Config) : Opt → Config
  | .window => { cfg with headless := false }
  | .verbose => { cfg with verbose := 1 }
  | .machine v => { cfg with machine := v }
  | .cpu v => { cfg with cputype := v }
  | .memsize v => { cfg with memsizeMb := atoi v }

/-- A command line: the options, a `--` if there is one, what is run and its arguments. -/
def commandLine (opts : List Opt) (dashes : Bool) (first : Str) (rest : List Str) : List Str :=
  opts.map Opt.text ++ ((if dashes then ["--".toList] else []) ++ first :: rest)

section Launch

variable {h : LaunchHost} {name path file : Str} {cfg c : Config} {rest : List Str}

theorem text_ne {key word v : Str} (h : ¬ key <+: word) : key ++ v ≠ word := by
  rintro rfl
  exact h (List.prefix_append key v)

/-- Of two keys that do not begin with each other a text begins with one only. -/
theorem text_key {key word v : Str} (h : ¬ key <+: word) (h' : ¬ word <+: key) : ¬ word <+: key ++ v := by
  intro hword
  have hkey : key <+: key ++ v := List.prefix_append key v
  rcases Nat.le_total key.length word.length with hle | hle
  · exact h (List.prefix_of_prefix_length_le hkey hword hle)
  · exact h' (List.prefix_of_prefix_length_le hword hkey hle)

/-- The options that are words. -/
def optionWords : List Str :=
  ["--help", "-h", "--version", "--window", "--verbose", "-v"].map String.toList

/-- An option that is none of the words is tried for its key. -/
theorem options_key {a : Str} (ha : ∀ word ∈ optionWords, a ≠ word) (as : List Str) (cfg : Config) :
    options (a :: as) cfg =
      if "--machine=".toList <+: a then options as { cfg with machine := a.drop 10 }
      else if "--cpu=".toList <+: a then options as { cfg with cputype := a.drop 6 }
      else if "--memsize=".toList <+: a then options as { cfg with memsizeMb := atoi (a.drop 10) }
      else if a = "--".toList then .ok (as, cfg)
      else if 1 < a.length ∧ a.head? = some '-' then .error (.unknownOption a)
      else .ok (a :: as, cfg) := by
  simp only [optionWords, List.map_cons, List.map_nil, List.forall_mem_cons] at ha
  obtain ⟨hhelp, hh, hversion, hwindow, hverbose, hv, -⟩ := ha
  rw [options, if_neg (not_or.mpr ⟨hhelp, hh⟩), if_neg hversion, if_neg hwindow, if_neg (not_or.mpr ⟨hverbose, hv⟩)]

theorem options_opt (o : Opt) (as : List Str) (cfg : Config) : options (o.text :: as) cfg = options as (o.set cfg) := by
  cases o with
  | window => rfl
  | verbose => rfl
  | machine v =>
    have hlen : "--machine=".toList.length = 10 := by decide
    have hdrop : ("--machine=".toList ++ v).drop 10 = v := by rw [← hlen, List.drop_left]
    have hkey : ∀ word ∈ optionWords, ¬ "--machine=".toList <+: word := by decide
    change options (("--machine=".toList ++ v) :: as) cfg = options as { cfg with machine := v }
    rw [options_key fun word hw => text_ne (hkey word hw), if_pos (List.prefix_append _ v), hdrop]
  | cpu v =>
    have hlen : "--cpu=".toList.length = 6 := by decide
    have hdrop : ("--cpu=".toList ++ v).drop 6 = v := by rw [← hlen, List.drop_left]
    have hkey : ∀ word ∈ optionWords, ¬ "--cpu=".toList <+: word := by decide
    have hmachine : ¬ "--machine=".toList <+: "--cpu=".toList ++ v := text_key (by decide) (by decide)
    change options (("--cpu=".toList ++ v) :: as) cfg = options as { cfg with cputype := v }
    rw [options_key fun word hw => text_ne (hkey word hw), if_neg hmachine,
      if_pos (List.prefix_append _ v), hdrop]
  | memsize v =>
    have hlen : "--memsize=".toList.length = 10 := by decide
    have hdrop : ("--memsize=".toList ++ v).drop 10 = v := by rw [← hlen, List.drop_left]
    have hkey : ∀ word ∈ optionWords, ¬ "--memsize=".toList <+: word := by decide
    have hmachine : ¬ "--machine=".toList <+: "--memsize=".toList ++ v := text_key (by decide) (by decide)
    have hcpu : ¬ "--cpu=".toList <+: "--memsize=".toList ++ v := text_key (by decide) (by decide)
    change options (("--memsize=".toList ++ v) :: as) cfg = options as { cfg with memsizeMb := atoi v }
    rw [options_key fun word hw => text_ne (hkey word hw), if_neg hmachine, if_neg hcpu,
      if_pos (List.prefix_append _ v), hdrop]

theorem options_opts (opts : List Opt) (as : List Str) (cfg : Config) :
    options (opts.map Opt.text ++ as) cfg = options as (opts.foldl Opt.set cfg) := by
  induction opts generalizing cfg with
  | nil => rfl
  | cons o opts ih => rw [List.map_cons, List.cons_append, options_opt, ih, List.foldl_cons]

/-- Which file it is: the options leave what is run and its arguments. -/
theorem options_commandLine (opts : List Opt) (dashes : Bool) (rest : List Str)
    (hname : dashes = true ∨ ¬ (1 < name.length ∧ name.head? = some '-')) :
    options (commandLine opts dashes name rest) newConfig = .ok (name :: rest, opts.foldl Opt.set newConfig) := by
  rw [commandLine, options_opts]
  cases dashes with
  | true => rfl
  | false =>
    have hopt := hname.resolve_left Bool.false_ne_true
    have hne : ∀ {word : Str}, 1 < word.length → word.head? = some '-' → name ≠ word := by
      rintro word hlen hhead rfl
      exact hopt ⟨hlen, hhead⟩
    have hpre : ∀ {word : Str}, 1 < word.length → word.head? = some '-' → ¬ word <+: name := by
      intro word hlen hhead hp
      refine hopt ⟨hlen.trans_le hp.length_le, ?_⟩
      obtain ⟨t, rfl⟩ := hp
      cases word with
      | nil => exact absurd hlen (by simp)
      | cons c word => exact hhead
    have hword : ∀ word ∈ optionWords, 1 < word.length ∧ word.head? = some '-' := by decide
    rw [if_neg Bool.false_ne_true, List.nil_append,
      options_key fun word hw => hne (hword word hw).1 (hword word hw).2, if_neg (hpre (by decide) rfl),
      if_neg (hpre (by decide) rfl), if_neg (hpre (by decide) rfl), if_neg (hne (by decide) rfl), if_neg hopt]

theorem opts_lists (opts : List Opt) (cfg : Config) (hcfg : cfg.args = [] ∧ cfg.drives = [] ∧ cfg.fileMappings = []) :
    (opts.foldl Opt.set cfg).args = [] ∧ (opts.foldl Opt.set cfg).drives = [] ∧
      (opts.foldl Opt.set cfg).fileMappings = [] := by
  induction opts generalizing cfg with
  | nil => exact hcfg
  | cons o opts ih =>
    refine ih _ ?_
    cases o <;> exact hcfg

/-- A configuration file over the options is the configuration. -/
theorem loaded_configText (opts : List Opt) (hc : ConfigOk c) (htext : h.text file = some (configText c))
    (rest : List Str) (program : Str → Str) :
    loaded h file (opts.foldl Opt.set newConfig) rest program =
      if program c.program = [] then .noProgram
      else .run { c with program := program c.program, args := c.args ++ rest } := by
  obtain ⟨hargs, hdrives, hmappings⟩ := opts_lists opts newConfig ⟨rfl, rfl, rfl⟩
  rw [loaded, htext]
  simp only [loadConfigFile_over h.env _ hc, hargs, hdrives, hmappings, List.nil_append, started]

theorem resolved_ne_nil (hpath : resolveProgramPath h name = some path) : path ≠ [] := by
  rw [resolveProgramPath] at hpath
  by_cases hsep : hasPathSep name = true
  · rw [if_pos hsep] at hpath
    split_ifs at hpath
    rw [← Option.some.inj hpath]
    rintro rfl
    cases hsep
  · rw [if_neg hsep] at hpath
    obtain ⟨dir, -, hdir⟩ := List.exists_of_findSome?_eq_some hpath
    have hhit : dirHit h name dir = some path := hdir
    rw [dirHit] at hhit
    split_ifs at hhit with hexe hmiss hmiss
    · rw [← Option.some.inj hhit]
      exact hmiss
    · rw [← Option.some.inj hhit]
      exact hmiss

/-- **The configuration a command line comes to**: a program without a configuration file beside it runs with the
    options; one that has a file runs with what the file says, whatever the options, but as the path that was
    found; and a configuration file named itself runs the program it names.  The arguments of the command line
    come after those of the file. -/
theorem launch_config (h : LaunchHost) (opts : List Opt) (dashes : Bool) (first : Str) (rest : List Str)
    (hfirst : dashes = true ∨ ¬ (1 < first.length ∧ first.head? = some '-')) :
    (∀ path, isConfig first = false → resolveProgramPath h first = some path → sidecarCfg h path = none →
      launch h (commandLine opts dashes first rest) =
        .run { opts.foldl Opt.set newConfig with program := path, args := rest }) ∧
    (∀ path file c, isConfig first = false → resolveProgramPath h first = some path → sidecarCfg h path = some file →
      ConfigOk c → h.text file = some (configText c) →
      launch h (commandLine opts dashes first rest) = .run { c with program := path, args := c.args ++ rest }) ∧
    ∀ c, isConfig first = true → ConfigOk c → h.text first = some (configText c) →
      launch h (commandLine opts dashes first rest) =
        if c.program = [] then .noProgram else .run { c with args := c.args ++ rest } := by
  have hopts := options_commandLine opts dashes rest hfirst
  refine ⟨?_, ?_, ?_⟩
  · intro path hfile hpath hside
    obtain ⟨hargs, -, -⟩ := opts_lists opts newConfig ⟨rfl, rfl, rfl⟩
    rw [launch, hopts]
    simp only [hfile, hpath, hside, hargs, List.nil_append, Bool.false_eq_true, if_false]
    exact if_neg (resolved_ne_nil hpath)
  · intro path file c hfile hpath hside hc htext
    rw [launch, hopts]
    simp only [hfile, hpath, hside, Bool.false_eq_true, if_false]
    rw [loaded_configText opts hc htext]
    exact if_neg (resolved_ne_nil hpath)
  · intro c hfile hc htext
    rw [launch, hopts]
    simp only [hfile, if_true]
    exact loaded_configText opts hc htext rest id

end Launch

/-- Turbo C with a configuration file beside it, on `DOSIZ_PATH`. -/
def tccHost : LaunchHost where
  listing dir := if dir = "/opt/tc".toList then some ["TCC.CFG".toList, "TCC.EXE".toList, "tlink.exe".toList] else none
  isFile name := name = "/opt/tc/TCC.CFG".toList
  path := some "/bin::/opt/tc".toList
  env _ := none
  text name := if name = "/opt/tc/TCC.CFG".toList then some (configText projectConfig) else none

theorem launch_config_tcc :
    launch tccHost (commandLine [.verbose, .cpu "486".toList] false "tcc".toList ["B.C".toList]) =
      .run { projectConfig with program := "/opt/tc/TCC.EXE".toList, args := projectConfig.args ++ ["B.C".toList] } := by
  have htext : tccHost.text "/opt/tc/TCC.CFG".toList = some (configText projectConfig) := by
    simp only [tccHost, if_true]
  exact (launch_config tccHost [.verbose, .cpu "486".toList] false "tcc".toList ["B.C".toList]
    (Or.inr (by decide +kernel))).2.1 "/opt/tc/TCC.EXE".toList "/opt/tc/TCC.CFG".toList projectConfig
    (by decide +kernel) (by decide +kernel) (by decide +kernel) projectConfig_ok htext

end Dosiz.Launch
