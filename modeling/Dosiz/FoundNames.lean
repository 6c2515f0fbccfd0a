/-
  Dosiz/FoundNames.lean
  =====================
  **The names a search returns** (INT 21h AH=4E and 4F of `bridge.cc`).

  A search lists a host directory and returns each entry under a short name: upper case, cut to
  eight and three characters, with a number where it is long or taken.  AH=3D knows nothing of the
  short names, it looks for a host name that agrees up to case: `foundName_opens_iff`.
-/
import Mathlib.Data.Char
import Mathlib.Data.List.Lex
import Mathlib.Data.List.Sort
import Dosiz.CurrentDir

namespace Dosiz.FoundNames

open HostPath CurrentDir

/-- Names are the same if their bytes are. -/
instance lawfulBEqStr : LawfulBEq Str := inferInstance

/-! ### The search -/

def shortName (base ext : Str) : Str := if ext = [] then base else base ++ '.' :: ext

/-- `BASEPFX~N.EXT` -/
def numbered (base ext : Str) (n : Nat) : Str :=
  let suffix := '~' :: Nat.toDigits 10 n
  shortName (base.take (8 - suffix.length) ++ suffix) ext

/-- The first number whose name is not taken. -/
def firstNumbered (used : List Str) (base ext : Str) : Nat → Nat → Option Str
  | 0, _ => none
  | fuel + 1, n =>
    if numbered base ext n ∈ used then firstNumbered used base ext fuel (n + 1) else some (numbered base ext n)

/-- `mangle_8_3`: the short name; `used` gets it unless it is the name itself, for want of a number. -/
def mangle83 (name : Str) (used : List Str) : Str × List Str :=
  let base := upper (splitExt name).1
  let ext := (upper (splitExt name).2).take 3
  if base.length ≤ 8 ∧ shortName base ext ∉ used then (shortName base ext, shortName base ext :: used)
  else
    match firstNumbered used base ext 999 1 with
    | some candidate => (candidate, candidate :: used)
    | none => (name, used)

/-- An entry of a search: the host's name, and the short one. -/
structure FindEntry where
  hostName : Str
  mangled : Str
  deriving DecidableEq

def mangleAll : List Str → List Str → List FindEntry
  | [], _ => []
  | name :: names, used => ⟨name, (mangle83 name used).1⟩ :: mangleAll names (mangle83 name used).2

def dotNames : List Str := [['.'], ['.', '.']]

/-- `build_find_state`, for the names of the directory in the order `readdir` gives them. -/
def buildFindState (names : List Str) (pattern : Str) : List FindEntry :=
  (dotNames.filter (globMatch · pattern)).map (fun name => ⟨name, name⟩) ++
    (mangleAll ((names.filter (· ∉ dotNames)).insertionSort (· ≤ ·)) []).filter (globMatch ·.mangled pattern)

/-- `split_dir_pattern` -/
def splitDirPattern (dosPath : Str) : Str × Str := (splitLast isSlash dosPath).getD ([], dosPath)

/-- The name field of the DTA has room for twelve characters. -/
def FindEntry.returned (e : FindEntry) : Str := e.mangled.take 12

/-- AH=4E, and AH=4F after it: the directory, and the entries one after the other. -/
def int21_4E (fs : HostFs) (s : Drives) (dosPath : Str) : Option (Nat × List FindEntry) :=
  let r := splitDirPattern dosPath
  ((fs.lookup (dosToHost s fs.tree r.1)).filter fs.isDir).map fun d =>
    (d, buildFindState (fs.names d) (upper r.2))

/-! ### Opening what was found -/

/-- The search path with its last component replaced; slashes of both kinds read the same. -/
def replaceLast (dosPath name : Str) : Str :=
  match splitLast isSlash dosPath with
  | some (dir, _) => dir ++ '\\' :: name
  | none => dosPath.take (dosPath.length - (dropDrive dosPath).length) ++ name

/-- The directory and the last name of a host path. -/
def place (fs : HostFs) (path : Str) : Option (Nat × Str) :=
  match splitLast (· = '/') path with
  | none => some (fs.workDir, path)
  | some ([], name) => some (fs.root, name)
  | some (dir, name) => (fs.lookup dir).map (·, name)

/-- AH=3D takes `p` for a file of the host, which is there and no directory: the one named `hostName` in
    directory `d`. -/
def Opens (fs : HostFs) (s : Dirs) (p : Str) (d : Nat) (hostName : Str) : Prop :=
  ∃ path k, PathCall.target s.toPathConfig fs.tree p .open_ = .file path ∧ fs.lookup path = some k ∧
    fs.isDir k = false ∧ place fs path = some (d, hostName)

/-- A name that reads the same as the end of any path. -/
def PlainName (name : Str) : Prop := name ≠ [] ∧ ∀ c ∈ name, c ≠ '/' ∧ c ≠ '\\' ∧ c ≠ ':'

/-- The host path `dir` is spelled as on the host, and the name too. -/
def Spelled (fs : HostFs) (dir name : Str) : Prop := ∃ e, fs.lookup dir = some e ∧ name ∈ fs.names e

/-- The entry is the one a look-up of `name` behind the host path `dir` prefers: the one with that spelling, if
    there is one; else the first in the order of the directory that the names of `dir` lead to, in whatever
    case. -/
structure Preferred (fs : HostFs) (dir name : Str) (d : Nat) (hostName : Str) : Prop where
  spelled : Spelled fs dir name → name = hostName
  first : ¬ Spelled fs dir name → fs.foldFind fs.root (segs dir) = some d ∧
    (fs.names d).find? (fun n => upper n = upper hostName) = some hostName

/-- `hostName` in directory `d` is what a look-up of the host path `path` comes to: the path itself, if it is
    there; else the first name in the order of the directory that agrees with the last name of the path up to case,
    in the directory that the names before it lead to, in whatever case. -/
structure Reaches (fs : HostFs) (path : Str) (d : Nat) (hostName : Str) : Prop where
  there : (fs.lookup path).isSome → place fs path = some (d, hostName)
  walked : fs.lookup path = none → ∃ ss last, segs path = ss ++ [last] ∧ fs.foldFind fs.root ss = some d ∧
    (fs.names d).find? (fun n => upper n = upper last) = some hostName

/-! ### The last component -/

theorem splitLast_mid {p : Char → Bool} {a b : Str} {c : Char} (hc : p c = true) (hb : ∀ x ∈ b, p x = false) :
    splitLast p (a ++ c :: b) = some (a, b) := by
  have hrev : (a ++ c :: b).reverse = b.reverse ++ c :: a.reverse := by
    rw [List.reverse_append, List.reverse_cons, List.append_assoc, List.singleton_append]
  have hall : ∀ x ∈ b.reverse, (!p x) = true := by
    intro x hx
    rw [hb x (List.mem_reverse.mp hx)]
    rfl
  have hstop : ¬ (!p c) = true := by
    rw [hc]
    decide
  have hdrop : (c :: a.reverse).dropWhile (!p ·) = c :: a.reverse := List.dropWhile_cons_of_neg hstop
  have htake : (c :: a.reverse).takeWhile (!p ·) = [] := List.takeWhile_cons_of_neg hstop
  unfold splitLast
  rw [hrev, List.dropWhile_append_of_pos hall, List.takeWhile_append_of_pos hall, hdrop, htake]
  dsimp only
  rw [List.append_nil, List.reverse_reverse, List.reverse_reverse]

theorem splitLast_tail {p : Char → Bool} {s a b : Str} (h : splitLast p s = some (a, b)) : ∀ x ∈ b, p x = false := by
  unfold splitLast at h
  split at h
  · cases h
  · cases h
    intro x hx
    have hall := List.mem_takeWhile_imp (List.mem_reverse.mp hx)
    simpa using hall

theorem splitLast_none {p : Char → Bool} {s : Str} (h : splitLast p s = none) : ∀ x ∈ s, p x = false := by
  unfold splitLast at h
  split at h
  · rename_i hdrop
    intro x hx
    have hall := List.dropWhile_eq_nil_iff.mp hdrop x (List.mem_reverse.mpr hx)
    simpa using hall
  · cases h

theorem PlainName.take {name : Str} (h : PlainName name) : PlainName (name.take 12) := by
  refine ⟨fun hnil => h.1 ?_, fun c hc => h.2 c (List.mem_of_mem_take hc)⟩
  rcases List.take_eq_nil_iff.mp hnil with hnil | hnil
  · cases hnil
  · exact hnil

section Last

variable {name : Str}

theorem PlainName.noSlash (h : PlainName name) : '/' ∉ name := fun hmem => (h.2 _ hmem).1 rfl

/-- The second character of a plain name is no colon. -/
theorem dropDrive_plain (h : PlainName name) : dropDrive name = name := by
  unfold dropDrive
  split
  · exact absurd rfl (h.2 ':' (by simp)).2.2
  · rfl

theorem dosDrive_plain (h : PlainName name) (s : Drives) : dosDrive s name = s.current := by
  unfold dosDrive
  split
  · exact absurd rfl (h.2 ':' (by simp)).2.2
  · rfl

/-- A name behind a directory leaves its drive letter alone. -/
theorem dropDrive_behind (h : PlainName name) (dir : Str) :
    dropDrive (dir ++ '\\' :: name) = dropDrive dir ++ '\\' :: name := by
  rcases dir with _ | ⟨c, _ | ⟨k, dir⟩⟩
  · obtain ⟨x, xs, rfl⟩ := List.exists_cons_of_ne_nil h.1
    have hx := (h.2 x (by simp)).2.2
    simp only [List.nil_append, dropDrive]
    split
    · rename_i heq
      simp only [List.cons.injEq] at heq
      exact absurd heq.2.1 hx
    · rfl
  · rfl
  · by_cases hk : k = ':'
    · subst hk
      rfl
    · simp only [List.cons_append, dropDrive]
      split
      · rename_i heq
        simp only [List.cons.injEq] at heq
        exact absurd heq.2.1 hk
      · split
        · rename_i heq
          simp only [List.cons.injEq] at heq
          exact absurd heq.2.1 hk
        · rfl

theorem dosDrive_behind (h : PlainName name) (s : Drives) (dir : Str) :
    dosDrive s (dir ++ '\\' :: name) = dosDrive s dir := by
  rcases dir with _ | ⟨c, _ | ⟨k, dir⟩⟩
  · obtain ⟨x, xs, rfl⟩ := List.exists_cons_of_ne_nil h.1
    have hx := (h.2 x (by simp)).2.2
    simp only [List.nil_append, dosDrive]
    split
    · rename_i heq
      simp only [List.cons.injEq] at heq
      exact absurd heq.2.1 hx
    · rfl
  · rfl
  · by_cases hk : k = ':'
    · subst hk
      rfl
    · simp only [List.cons_append, dosDrive]
      split
      · rename_i heq
        simp only [List.cons.injEq] at heq
        exact absurd heq.2.1 hk
      · split
        · rename_i heq
          simp only [List.cons.injEq] at heq
          exact absurd heq.2.1 hk
        · rfl

theorem slashes_plain (h : PlainName name) : (name.map fun c => if c = '\\' then '/' else c) = name := by
  refine (List.map_congr_left fun c hc => if_neg (h.2 c hc).2.1).trans ?_
  rw [List.map_id']

/-- The host path of a name behind a directory is that of the directory, and the name. -/
theorem literal_behind (h : PlainName name) (s : Drives) (dir : Str) :
    literalPath s (dir ++ '\\' :: name) = literalPath s dir ++ '/' :: name := by
  unfold literalPath
  rw [dropDrive_behind h, dosDrive_behind h, List.map_append, List.map_cons, slashes_plain h, if_pos rfl]
  dsimp only
  generalize (s.mounted (dosDrive s dir)).getD [] = base
  generalize (dropDrive dir).map (fun c => if c = '\\' then '/' else c) = path
  rcases path with _ | ⟨c, path⟩
  · rfl
  · by_cases hc : c = '/'
    · subst hc
      simp
    · -- neither path is from the root
      rw [List.cons_append]
      split
      · rename_i heq
        cases heq
      · rename_i heq
        exact absurd (List.cons.inj heq).1 hc
      · by_cases hbase : base = []
        · rw [if_pos hbase]
          split
          · rename_i heq
            cases heq
          · rename_i heq
            exact absurd (List.cons.inj heq).1 hc
          · rw [if_pos hbase, List.cons_append]
        · rw [if_neg hbase]
          split
          · rename_i heq
            cases heq
          · rename_i heq
            exact absurd (List.cons.inj heq).1 hc
          · rw [if_neg hbase, List.append_assoc, List.cons_append, List.cons_append]

theorem literal_plain (h : PlainName name) (s : Drives) (hbase : literalPath s [] ≠ []) :
    literalPath s name = literalPath s [] ++ '/' :: name := by
  have hroot : literalPath s [] = (s.mounted s.current).getD [] := rfl
  rw [hroot] at hbase ⊢
  unfold literalPath
  rw [dropDrive_plain h, dosDrive_plain h, slashes_plain h]
  dsimp only
  obtain ⟨x, xs, rfl⟩ := List.exists_cons_of_ne_nil h.1
  have hx := (h.2 x (by simp)).1
  split
  · rename_i heq
    cases heq
  · rename_i heq
    exact absurd (List.cons.inj heq).1 hx
  · rw [if_neg hbase]

end Last

/-! ### A name behind a host path -/

section Behind

variable {fs : HostFs} {dir name : Str}

theorem lookup_append (hdir : dir ≠ []) (hne : name ≠ []) (hs : '/' ∉ name) :
    fs.lookup (dir ++ '/' :: name) = (fs.lookup dir).bind fun d => fs.child d name := by
  have hstep : ∀ start path, fs.find start (segs (path ++ '/' :: name)) =
      (fs.find start (segs path)).bind fun d => fs.child d name := by
    intro start path
    rw [segs_append, segs_name hne hs, fs.find_append]
    congr 1
    funext d
    rw [HostFs.find, List.foldlM_cons]
    cases fs.child d name <;> rfl
  obtain ⟨c, rest, rfl⟩ := List.exists_cons_of_ne_nil hdir
  by_cases hc : c = '/'
  · subst hc
    exact hstep fs.root rest
  · have hrel : ∀ path, fs.lookup (c :: path) = fs.find fs.workDir (segs (c :: path)) := by
      intro path
      unfold HostFs.lookup
      split
      · rename_i heq
        cases heq
      · rename_i heq
        exact absurd (List.cons.inj heq).1 hc
      · rfl
    rw [List.cons_append, hrel, hrel]
    exact hstep fs.workDir (c :: rest)

theorem place_append (hs : '/' ∉ name) :
    place fs (dir ++ '/' :: name) = if dir = [] then some (fs.root, name) else (fs.lookup dir).map (·, name) := by
  unfold place
  rw [splitLast_mid (by decide) fun x hx => decide_eq_false fun h : x = '/' => hs (h ▸ hx)]
  cases dir with
  | nil => rfl
  | cons c dir => rfl

/-- Without a name left, the walk stays where it is. -/
theorem walk_done {tree : HostTree} : ∀ {l : List Str}, namesOf l = [] → ∀ resolved, walk tree resolved l = resolved
  | [], _, _ => rfl
  | rest :: more, h, resolved => by
    have hseg : rest.takeWhile (· ≠ '/') = [] := by
      by_contra hne
      have hmem : rest.takeWhile (· ≠ '/') ∈ namesOf (rest :: more) :=
        List.mem_filter.mpr ⟨List.mem_cons_self, decide_eq_true hne⟩
      rw [h] at hmem
      cases hmem
    rw [namesOf, List.map_cons, hseg] at h
    rw [walk, if_pos hseg]
    exact walk_done h resolved

/-- Where the walk of `dos_to_host` ends: the directory of the last name, and the first name there. -/
theorem walk_last {found : Str} {e : Nat} : ∀ {l : List Str}, (l = [] ∨ ∃ s, l = s :: afterSlashes s) →
    ∀ (resolved : Str) (d : Nat) (ss : List Str), FromRoot resolved → fs.find fs.root (segs resolved) = some d →
      namesOf l = ss ++ [name] → fs.foldFind d ss = some e →
      (fs.names e).find? (fun n => upper n = upper name) = some found →
      ∃ r, walk fs.tree resolved l = r ++ '/' :: found ∧ FromRoot r ∧ fs.find fs.root (segs r) = some e := by
  intro l
  induction l with
  | nil =>
    intro _ _ _ ss _ _ hnames
    cases ss <;> cases hnames
  | cons rest more ih =>
    intro hl resolved d ss hroot hd hnames hfold hfind
    obtain ⟨s, hs⟩ := hl.resolve_left (List.cons_ne_nil _ _)
    obtain ⟨rfl, rfl⟩ := List.cons.inj hs
    rw [walk]
    by_cases hseg : rest.takeWhile (· ≠ '/') = []
    · have hskip : namesOf (rest :: afterSlashes rest) = namesOf (afterSlashes rest) := by
        simp only [namesOf, List.map_cons, hseg]
        rfl
      rw [if_pos hseg]
      exact ih (afterSlashes_cases rest) resolved d ss hroot hd (hskip ▸ hnames) hfold hfind
    · have hcons : namesOf (rest :: afterSlashes rest) =
          rest.takeWhile (· ≠ '/') :: namesOf (afterSlashes rest) := by
        simp only [namesOf, List.map_cons]
        exact List.filter_cons_of_pos (decide_eq_true hseg)
      have hmatch : matchEntry fs.tree (if resolved = [] then ['/'] else resolved)
          (rest.takeWhile (· ≠ '/')) =
            (fs.names d).find? fun name => upper name = upper (rest.takeWhile (· ≠ '/')) := by
        rw [matchEntry, entries_at hroot hd]
        rfl
      rw [if_neg hseg, hmatch]
      rw [hcons] at hnames
      cases ss with
      | nil =>
        -- the last name: nothing is left to walk
        obtain ⟨hname, hmore⟩ := List.cons.inj hnames
        cases hfold
        rw [hname, hfind]
        exact ⟨resolved, walk_done hmore _, hroot, hd⟩
      | cons t ss =>
        obtain ⟨rfl, hmore⟩ := List.cons.inj hnames
        rw [HostFs.foldFind, List.foldlM_cons] at hfold
        obtain ⟨k, hk, hfold⟩ := Option.bind_eq_some_iff.mp hfold
        rw [HostFs.foldChild] at hk
        obtain ⟨n, hn, hchild⟩ := Option.bind_eq_some_iff.mp hk
        have hmem := List.mem_of_find?_eq_some hn
        obtain ⟨hne, hslash⟩ := fs.proper d n hmem
        have hk' : fs.find fs.root (segs (resolved ++ '/' :: n)) = some k := by
          rw [segs_append, segs_name hne hslash, fs.find_append, hd, Option.bind_some, HostFs.find,
            List.foldlM_cons, hchild]
          rfl
        rw [hn]
        exact ih (afterSlashes_cases rest) _ k ss (hroot.append n) hk' hmore hfold hfind

end Behind

/-! ### What AH=3D finds -/

section Found

variable {fs : HostFs} {s : Drives} {p dir name : Str} {d : Nat} {hostName : Str}

/-- The directory a search has found is the one its path is spelled for, if there is one. -/
theorem lookup_spelled {q : Str} {e : Nat} (h : fs.lookup (literalPath s q) = some e) :
    fs.lookup (dosToHost s fs.tree q) = some e := by
  have hex : fs.tree.exists_ (literalPath s q) = true := by
    show (fs.lookup (literalPath s q)).isSome = true
    rw [h]
    rfl
  rw [dosToHost, if_pos hex, h]

theorem place_root {r : Str} {e : Nat} (hs : '/' ∉ name) (hr : FromRoot r)
    (he : fs.find fs.root (segs r) = some e) : place fs (r ++ '/' :: name) = some (e, name) := by
  rw [place_append hs]
  rcases hr with rfl | ⟨t, rfl⟩
  · rw [if_pos rfl]
    exact congrArg (Option.map (·, name)) he
  · rw [if_neg (List.cons_ne_nil _ _), lookup_slash, he]
    rfl

/-- The host path of the name is there exactly if it is spelled so. -/
theorem exists_iff_spelled (hdir : dir ≠ []) (hne : name ≠ []) (hs : '/' ∉ name) :
    fs.tree.exists_ (dir ++ '/' :: name) = true ↔ Spelled fs dir name := by
  show (fs.lookup (dir ++ '/' :: name)).isSome = true ↔ _
  rw [lookup_append hdir hne hs, Option.isSome_bind, Option.any_eq_true]
  refine exists_congr fun e => and_congr_right fun _ => ?_
  rw [fs.listed, Option.ne_none_iff_isSome]

/-- A path that is not there is walked from the root. -/
theorem dosToHost_walk {path : Str} (hlit : literalPath s p = path) (hex : ¬ fs.tree.exists_ path = true)
    (hne : segs path ≠ []) : ∃ rest, dosToHost s fs.tree p = walk fs.tree [] (rest :: afterSlashes rest) ∧
      namesOf (rest :: afterSlashes rest) = segs path := by
  have hkeep : ∀ rest, namesOf (rest :: afterSlashes rest) = segs path →
      ¬ walk fs.tree [] (rest :: afterSlashes rest) = [] := by
    intro rest hrest hnil
    exact hne (hrest ▸ (walk_eq_nil hnil).2)
  unfold dosToHost
  dsimp only
  rw [hlit, if_neg hex]
  split
  · rename_i rest
    have hrest : namesOf (rest :: afterSlashes rest) = segs ('/' :: rest) := (segs_slash rest).symm
    exact ⟨rest, if_neg (hkeep rest hrest), hrest⟩
  · exact ⟨path, if_neg (hkeep path rfl), rfl⟩

/-- Where the path of a file leads. -/
theorem lookup_of_place {path : Str} (h : place fs path = some (d, hostName)) (hne : hostName ≠ []) :
    fs.lookup path = fs.child d hostName := by
  unfold place at h
  cases hsplit : splitLast (fun c => decide (c = '/')) path with
  | none =>
    rw [hsplit] at h
    cases h
    have hs : '/' ∉ hostName := fun hmem => absurd (splitLast_none hsplit '/' hmem) (by decide)
    obtain ⟨c, rest, rfl⟩ := List.exists_cons_of_ne_nil hne
    have hc : c ≠ '/' := fun hc => hs (hc ▸ List.mem_cons_self)
    have hsegs := segs_name hne hs
    unfold HostFs.lookup
    split
    · rename_i heq
      cases heq
    · rename_i heq
      exact absurd (List.cons.inj heq).1 hc
    · rw [hsegs, HostFs.find, List.foldlM_cons]
      cases fs.child fs.workDir (c :: rest) <;> rfl
  | some r =>
    obtain ⟨dir, name⟩ := r
    have hs : '/' ∉ name := fun hmem => absurd (splitLast_tail hsplit '/' hmem) (by decide)
    obtain ⟨c, hc, rfl⟩ := splitLast_append hsplit
    obtain rfl : c = '/' := of_decide_eq_true hc
    rw [hsplit] at h
    cases dir with
    | nil =>
      cases h
      rw [List.nil_append, lookup_slash, segs_slash, segs_name hne hs, HostFs.find, List.foldlM_cons]
      cases fs.child fs.root hostName <;> rfl
    | cons x dir =>
      obtain ⟨d', hd', heq⟩ := Option.map_eq_some_iff.mp h
      cases heq
      rw [lookup_append (List.cons_ne_nil _ _) hne hs, hd']
      rfl

/-- Where the walk ends, when it has found the last name. -/
theorem walk_place {rest last : Str} {ss : List Str}
    (hsegs : namesOf (rest :: afterSlashes rest) = ss ++ [last]) :
    ((fs.lookup (walk fs.tree [] (rest :: afterSlashes rest))).isSome ∧
        place fs (walk fs.tree [] (rest :: afterSlashes rest)) = some (d, hostName)) ↔
      fs.foldFind fs.root ss = some d ∧ (fs.names d).find? (fun n => upper n = upper last) = some hostName := by
  obtain ⟨hroot, hfind⟩ := @find_walk fs _ (Or.inr ⟨rest, rfl⟩) [] fs.root (Or.inl rfl) rfl
  have hne' : walk fs.tree [] (rest :: afterSlashes rest) ≠ [] := by
    intro hnil
    have hno := (walk_eq_nil hnil).2
    rw [hsegs] at hno
    exact List.append_ne_nil_of_right_ne_nil _ (List.cons_ne_nil _ _) hno
  have hlookup : fs.lookup (walk fs.tree [] (rest :: afterSlashes rest)) =
      (fs.foldFind fs.root ss).bind fun e => fs.foldChild e last := by
    have hfold : fs.foldFind fs.root (ss ++ [last]) = (fs.foldFind fs.root ss).bind fun e => fs.foldChild e last := by
      rw [fs.foldFind_append]
      congr 1
      funext e
      rw [HostFs.foldFind, List.foldlM_cons]
      cases fs.foldChild e last <;> rfl
    rw [← hfold, ← hsegs, ← hfind]
    rcases hroot with hnil | ⟨t, ht⟩
    · exact absurd hnil hne'
    · rw [ht, lookup_slash]
  rw [hlookup]
  cases hdirs : fs.foldFind fs.root ss with
  | none => simp
  | some e =>
    rw [Option.bind_some, HostFs.foldChild]
    cases hfirst : (fs.names e).find? fun n => upper n = upper last with
    | none =>
      rw [Option.bind_none]
      constructor
      · rintro ⟨h, -⟩
        cases h
      · rintro ⟨hd, h⟩
        rw [← Option.some.inj hd, hfirst] at h
        cases h
    | some n =>
      obtain ⟨r, hr, hrroot, hrd⟩ := walk_last (Or.inr ⟨rest, rfl⟩) [] fs.root ss (Or.inl rfl) rfl hsegs hdirs hfirst
      have hmem := List.mem_of_find?_eq_some hfirst
      rw [hr, place_root (fs.proper e n hmem).2 hrroot hrd, Option.bind_some]
      have hthere : (fs.child e n).isSome = true :=
        Option.ne_none_iff_isSome.mp ((fs.listed e n).mp hmem)
      simp only [hthere, true_and, Option.some.injEq, Prod.mk.injEq]
      constructor
      · rintro ⟨rfl, rfl⟩
        exact ⟨rfl, hfirst⟩
      · rintro ⟨rfl, h⟩
        rw [hfirst, Option.some.injEq] at h
        exact ⟨rfl, h⟩

/-- What `dos_to_host` comes to. -/
theorem dosToHost_reaches : ((fs.lookup (dosToHost s fs.tree p)).isSome ∧
    place fs (dosToHost s fs.tree p) = some (d, hostName)) ↔ Reaches fs (literalPath s p) d hostName := by
  cases hlookup : fs.lookup (literalPath s p) with
  | some k =>
    have hex : fs.tree.exists_ (literalPath s p) = true := by
      show (fs.lookup (literalPath s p)).isSome = true
      rw [hlookup]
      rfl
    have hpath : dosToHost s fs.tree p = literalPath s p := by
      rw [dosToHost, if_pos hex]
    rw [hpath, hlookup]
    constructor
    · rintro ⟨-, hplace⟩
      refine ⟨fun _ => hplace, fun hnone => ?_⟩
      rw [hlookup] at hnone
      cases hnone
    · intro h
      exact ⟨rfl, h.there (by rw [hlookup]; rfl)⟩
  | none =>
    have hex : ¬ fs.tree.exists_ (literalPath s p) = true := by
      show ¬ (fs.lookup (literalPath s p)).isSome = true
      rw [hlookup]
      decide
    have hiff : Reaches fs (literalPath s p) d hostName ↔ ∃ ss last, segs (literalPath s p) = ss ++ [last] ∧
        fs.foldFind fs.root ss = some d ∧ (fs.names d).find? (fun n => upper n = upper last) = some hostName :=
      ⟨fun h => h.walked hlookup, fun h => ⟨fun hsome => absurd hsome (by rw [hlookup]; decide), fun _ => h⟩⟩
    rw [hiff]
    rcases List.eq_nil_or_concat (segs (literalPath s p)) with hnil | ⟨ss, last, hlast⟩
    · -- only the empty path has no names and is not there
      have hempty : literalPath s p = [] := by
        cases hlit : literalPath s p with
        | nil => rfl
        | cons c t =>
          exfalso
          rw [hlit] at hlookup hnil
          by_cases hc : c = '/'
          · subst hc
            rw [lookup_slash, hnil] at hlookup
            cases hlookup
          · have hmem : (c :: t).takeWhile (· ≠ '/') ∈ segs (c :: t) := by
              refine List.mem_filter.mpr ⟨List.mem_cons_self, decide_eq_true ?_⟩
              rw [List.takeWhile_cons_of_pos (by simpa using hc)]
              exact List.cons_ne_nil _ _
            rw [hnil] at hmem
            cases hmem
      have hpath : dosToHost s fs.tree p = [] := by
        rw [dosToHost, if_neg hex, hempty]
        rfl
      rw [hpath, hnil]
      constructor
      · rintro ⟨h, -⟩
        cases h
      · rintro ⟨ss, last, h, -⟩
        exact absurd h.symm (List.append_ne_nil_of_right_ne_nil _ (List.cons_ne_nil _ _))
    · rw [List.concat_eq_append] at hlast
      have hne : segs (literalPath s p) ≠ [] := by
        rw [hlast]
        exact List.append_ne_nil_of_right_ne_nil _ (List.cons_ne_nil _ _)
      obtain ⟨rest, hrest, hsegs⟩ := dosToHost_walk rfl hex hne
      rw [hrest, walk_place (hsegs.trans hlast)]
      constructor
      · rintro ⟨hd, hfirst⟩
        exact ⟨ss, last, hlast, hd, hfirst⟩
      · rintro ⟨ss', last', heq, hd, hfirst⟩
        obtain ⟨rfl, hl⟩ := List.append_inj' (heq.symm.trans hlast) rfl
        obtain rfl := List.singleton_inj.mp hl
        exact ⟨hd, hfirst⟩

/-- The file a name behind `dir` is taken for: the name as it is spelled, or the first that agrees with it up to
    case where the names of `dir` lead. -/
theorem reaches_behind (hdir : dir ≠ []) (hne : name ≠ []) (hs : '/' ∉ name) :
    Reaches fs (dir ++ '/' :: name) d hostName ↔
      (Spelled fs dir name → fs.lookup dir = some d ∧ name = hostName) ∧
      (¬ Spelled fs dir name → fs.foldFind fs.root (segs dir) = some d ∧
        (fs.names d).find? (fun n => upper n = upper name) = some hostName) := by
  have hspelled : (fs.lookup (dir ++ '/' :: name)).isSome = true ↔ Spelled fs dir name :=
    exists_iff_spelled hdir hne hs
  have hplace : place fs (dir ++ '/' :: name) = some (d, hostName) ↔ fs.lookup dir = some d ∧ name = hostName := by
    rw [place_append hs, if_neg hdir, Option.map_eq_some_iff]
    simp
  have hnames : segs (dir ++ '/' :: name) = segs dir ++ [name] := by
    rw [segs_append, segs_name hne hs]
  constructor
  · intro h
    refine ⟨fun hsp => hplace.mp (h.there (hspelled.mpr hsp)), fun hno => ?_⟩
    obtain ⟨ss, last, hlast, hd, hfirst⟩ := h.walked (Option.not_isSome_iff_eq_none.mp fun hsome =>
      hno (hspelled.mp hsome))
    obtain ⟨rfl, hl⟩ := List.append_inj' (hnames.symm.trans hlast) rfl
    obtain rfl := List.singleton_inj.mp hl
    exact ⟨hd, hfirst⟩
  · rintro ⟨hyes, hno⟩
    refine ⟨fun hsome => hplace.mpr (hyes (hspelled.mp hsome)), fun hnone => ?_⟩
    have hnot : ¬ Spelled fs dir name := by
      rw [← hspelled, hnone]
      decide
    exact ⟨segs dir, name, hnames, (hno hnot).1, (hno hnot).2⟩

end Found

/-! ### Patterns with a drive letter -/

/-- What matches a pattern with a colon has a colon. -/
theorem globFrom_colon : ∀ (fuel : Nat) (name pat : Str) (star : Option (Str × Str)), ':' ∉ name → ':' ∈ pat →
    (∀ q ∈ star, ':' ∈ q.1 ∧ ':' ∉ q.2) → globFrom fuel name pat star = false := by
  intro fuel
  induction fuel with
  | zero =>
    intro _ _ _ _ _ _
    rw [globFrom]
  | succ fuel ih =>
    intro name pat star hname hpat hstar
    have hretry : globFrom.retry fuel star = false := by
      rcases star with _ | ⟨q, _ | ⟨c, rest⟩⟩
      · rw [globFrom.retry]
        exact fun _ _ _ h => by cases h
      · rw [globFrom.retry]
        exact fun _ _ _ h => by cases h
      · obtain ⟨hq, hrest⟩ := hstar _ rfl
        have hrest' : ':' ∉ rest := fun h => hrest (List.mem_cons_of_mem c h)
        rw [globFrom.retry]
        refine ih rest q _ hrest' hq ?_
        rintro _ ⟨⟩
        exact ⟨hq, hrest'⟩
    rcases name with _ | ⟨c, name⟩
    · rw [globFrom]
      refine Bool.eq_false_iff.mpr fun hall => ?_
      have hcolon := List.all_eq_true.mp hall ':' hpat
      exact absurd hcolon (by decide)
    · rcases pat with _ | ⟨q, rest⟩
      · cases hpat
      · have hc : ':' ≠ c := fun h => hname (h ▸ List.mem_cons_self)
        have hname' : ':' ∉ name := fun h => hname (List.mem_cons_of_mem c h)
        rw [globFrom]
        by_cases hq : q = '?' ∨ q = c
        · rw [if_pos hq]
          refine ih name rest star hname' ?_ hstar
          refine (List.mem_cons.mp hpat).resolve_left ?_
          rintro rfl
          exact hq.elim (by decide) fun h => hc h
        · rw [if_neg hq]
          by_cases hs : q = '*'
          · rw [if_pos hs]
            have hrest : ':' ∈ rest := (List.mem_cons.mp hpat).resolve_left (by rw [hs]; decide)
            refine ih (c :: name) rest _ hname hrest ?_
            rintro _ ⟨⟩
            exact ⟨hrest, hname⟩
          · rw [if_neg hs]
            exact hretry

theorem mem_splitExt {s : Str} (h : ':' ∈ s) : ':' ∈ (splitExt s).1 ∨ ':' ∈ (splitExt s).2 := by
  unfold splitExt
  cases hsplit : splitLast (· = '.') s with
  | none => exact Or.inl h
  | some r =>
    obtain ⟨head, tail⟩ := r
    obtain ⟨c, hc, hs⟩ := splitLast_append hsplit
    rw [hs, List.mem_append, List.mem_cons] at h
    rcases h with h | rfl | h
    · exact Or.inl h
    · exact absurd hc (by decide)
    · exact Or.inr h

theorem of_mem_splitExt {s : Str} : (∀ c ∈ (splitExt s).1, c ∈ s) ∧ ∀ c ∈ (splitExt s).2, c ∈ s := by
  unfold splitExt
  cases hsplit : splitLast (· = '.') s with
  | none => exact ⟨fun _ h => h, fun _ h => by cases h⟩
  | some r =>
    obtain ⟨head, tail⟩ := r
    obtain ⟨c, -, hs⟩ := splitLast_append hsplit
    rw [hs]
    exact ⟨fun _ h => List.mem_append_left _ h, fun _ h => List.mem_append_right _ (List.mem_cons_of_mem _ h)⟩

theorem glob_colon {name pat : Str} (h : globMatch name pat = true) (hpat : ':' ∈ pat) : ':' ∈ name := by
  by_contra hname
  have hpart : ∀ n q : Str, ':' ∉ n → ':' ∈ q → globMatchPart n q = false := fun n q hn hq =>
    globFrom_colon _ n q none hn hq fun _ h => by cases h
  unfold globMatch at h
  split at h
  · rw [Bool.and_eq_true] at h
    rcases mem_splitExt hpat with hq | hq
    · rw [hpart _ _ (fun hn => hname (of_mem_splitExt.1 _ hn)) hq] at h
      exact absurd h.1 (by decide)
    · rw [hpart _ _ (fun hn => hname (of_mem_splitExt.2 _ hn)) hq] at h
      exact absurd h.2 (by decide)
  · rw [hpart _ _ hname hpat] at h
    cases h

/-- Every entry of a search matches its pattern. -/
theorem entry_matches {names : List Str} {pattern : Str} {e : FindEntry} (he : e ∈ buildFindState names pattern) :
    globMatch e.mangled pattern = true := by
  rcases List.mem_append.mp he with h | h
  · obtain ⟨name, hname, rfl⟩ := List.mem_map.mp h
    exact (List.mem_filter.mp hname).2
  · exact (List.mem_filter.mp h).2

theorem mangleAll_hostNames : ∀ names used : List Str, (mangleAll names used).map FindEntry.hostName = names
  | [], _ => rfl
  | name :: names, used => by
    rw [mangleAll, List.map_cons, mangleAll_hostNames names]

/-- An entry is a name of the directory, or one of the two dots. -/
theorem entry_listed {names : List Str} {pattern : Str} {e : FindEntry} (he : e ∈ buildFindState names pattern) :
    e.hostName ∈ names ∨ e.hostName ∈ dotNames := by
  rcases List.mem_append.mp he with h | h
  · obtain ⟨name, hname, rfl⟩ := List.mem_map.mp h
    exact .inr (List.mem_filter.mp hname).1
  · have hmem : e.hostName ∈ (mangleAll _ []).map FindEntry.hostName := List.mem_map_of_mem (List.mem_filter.mp h).1
    rw [mangleAll_hostNames, (List.perm_insertionSort _ _).mem_iff] at hmem
    exact .inl (List.mem_filter.mp hmem).1

/-! ### The names can be opened -/

/-- What a search lists is behind a host path, and the path of an entry's name is that path and the name. -/
theorem literal_replaceLast {fs : HostFs} {s : Drives} {q : Str} {d : Nat} {entries : List FindEntry} {e : FindEntry}
    (hfind : int21_4E fs s q = some (d, entries)) (he : e ∈ entries) (hplain : PlainName e.mangled) :
    literalPath s (splitDirPattern q).1 ≠ [] ∧
      literalPath s (replaceLast q e.returned) = literalPath s (splitDirPattern q).1 ++ '/' :: e.returned := by
  obtain ⟨d', hd', heq⟩ := Option.map_eq_some_iff.mp hfind
  obtain ⟨rfl, rfl⟩ := Prod.mk.inj heq
  have hlookup := (Option.filter_eq_some_iff.mp hd').1
  have hlit : literalPath s (splitDirPattern q).1 ≠ [] := by
    intro hnil
    have hpath : dosToHost s fs.tree (splitDirPattern q).1 = [] := by
      unfold dosToHost
      dsimp only
      rw [hnil]
      rfl
    rw [hpath] at hlookup
    cases hlookup
  have hshort : PlainName e.returned := hplain.take
  refine ⟨hlit, ?_⟩
  unfold replaceLast splitDirPattern at *
  cases hsplit : splitLast isSlash q with
  | some r => exact literal_behind hshort s r.1
  | none =>
    rw [hsplit, Option.getD_none] at hlit he
    rw [Option.getD_none]
    have hcolon : ':' ∉ q := by
      intro hmem
      refine (hplain.2 ':' (glob_colon (entry_matches he) ?_)).2.2 rfl
      exact List.mem_map.mpr ⟨':', hmem, by decide⟩
    have hdrop : dropDrive q = q := by
      unfold dropDrive
      split
      · exact absurd (by simp) hcolon
      · rfl
    dsimp only
    rw [hdrop, Nat.sub_self, List.take_zero, List.nil_append]
    exact literal_plain hshort s hlit

/-- Without file mappings AH=3D takes a path for a device, or for the file of the drive. -/
theorem opens_iff_reaches {fs : HostFs} {s : Dirs} (hmap : s.mappings = []) (p : Str) (d : Nat) {hostName : Str}
    (hne : hostName ≠ []) : Opens fs s p d hostName ↔ isCharDev p = false ∧
      (∃ k, fs.child d hostName = some k ∧ fs.isDir k = false) ∧ Reaches fs (literalPath s.toDrives p) d hostName := by
  have hpath : (resolvePath s.toPathConfig fs.tree p).hostPath = dosToHost s.toDrives fs.tree p := by
    unfold resolvePath
    dsimp only
    rw [hmap]
    rfl
  unfold Opens
  rw [PathCall.target, hpath, ← dosToHost_reaches]
  cases isCharDev p with
  | true => simp
  | false =>
    constructor
    · rintro ⟨path, k, heq, hk, hdir, hplace⟩
      cases heq
      exact ⟨rfl, ⟨k, (lookup_of_place hplace hne).symm.trans hk, hdir⟩, by rw [hk]; rfl, hplace⟩
    · rintro ⟨-, ⟨k, hk, hdir⟩, -, hplace⟩
      exact ⟨_, k, rfl, (lookup_of_place hplace hne).trans hk, hdir, hplace⟩

/-- A name without slashes and colons leads to an entry that the search has found exactly if it differs from the
    host's name in case at most, and no other name comes first. -/
theorem reaches_plain {fs : HostFs} {s : Drives} {q : Str} {d : Nat} {entries : List FindEntry} {e : FindEntry}
    (hfind : int21_4E fs s q = some (d, entries)) (he : e ∈ entries) (hplain : PlainName e.mangled) :
    Reaches fs (literalPath s (replaceLast q e.returned)) d e.hostName ↔ upper e.hostName = upper e.returned ∧
      Preferred fs (literalPath s (splitDirPattern q).1) e.returned d e.hostName := by
  obtain ⟨hdir, hlit⟩ := literal_replaceLast hfind he hplain
  have hshort : PlainName e.returned := hplain.take
  obtain ⟨d', hd', heq⟩ := Option.map_eq_some_iff.mp hfind
  obtain ⟨rfl, -⟩ := Prod.mk.inj heq
  have hlookup := (Option.filter_eq_some_iff.mp hd').1
  rw [hlit, reaches_behind hdir hshort.1 hshort.noSlash]
  by_cases hspelled : Spelled fs (literalPath s (splitDirPattern q).1) e.returned
  · obtain ⟨k, hk, hmem⟩ := id hspelled
    have hsame : fs.lookup (literalPath s (splitDirPattern q).1) = some d' := by
      rw [← hlookup, lookup_spelled hk, hk]
    constructor
    · rintro ⟨h, -⟩
      exact ⟨by rw [(h hspelled).2], fun _ => (h hspelled).2, fun hno => absurd hspelled hno⟩
    · rintro ⟨-, h⟩
      exact ⟨fun _ => ⟨hsame, h.spelled hspelled⟩, fun hno => absurd hspelled hno⟩
  · constructor
    · rintro ⟨-, h⟩
      obtain ⟨hd, hfirst⟩ := h hspelled
      have hup : upper e.hostName = upper e.returned := by simpa using List.find?_some hfirst
      refine ⟨hup, fun hs => absurd hs hspelled, fun _ => ⟨hd, ?_⟩⟩
      rw [hup]
      exact hfirst
    · rintro ⟨hup, h⟩
      obtain ⟨hd, hfirst⟩ := h.first hspelled
      refine ⟨fun hs => absurd hs hspelled, fun _ => ⟨hd, ?_⟩⟩
      rw [← hup]
      exact hfirst

theorem entry_ne_nil {fs : HostFs} {s : Drives} {q : Str} {d : Nat} {entries : List FindEntry} {e : FindEntry}
    (hfind : int21_4E fs s q = some (d, entries)) (he : e ∈ entries) : e.hostName ≠ [] := by
  obtain ⟨d', -, heq⟩ := Option.map_eq_some_iff.mp hfind
  obtain ⟨rfl, rfl⟩ := Prod.mk.inj heq
  rcases entry_listed he with hmem | hmem
  · exact (fs.proper _ _ hmem).1
  · intro hnil
    rw [hnil] at hmem
    exact absurd hmem (by decide)

/-- **The names a search returns.**  Without file mappings, the name of an entry opens its file exactly if it is
    not a device's, the entry is no directory, and the look-up of the name comes to it: for a name without slashes
    and colons, if it differs from the host's name in case at most and no other name comes first. -/
theorem foundName_opens_iff {fs : HostFs} {s : Dirs} {q : Str} {d : Nat} {entries : List FindEntry} {e : FindEntry}
    (hmap : s.mappings = []) (hfind : int21_4E fs s.toDrives q = some (d, entries)) (he : e ∈ entries) :
    (Opens fs s (replaceLast q e.returned) d e.hostName ↔
      isCharDev (replaceLast q e.returned) = false ∧ (∃ k, fs.child d e.hostName = some k ∧ fs.isDir k = false) ∧
        Reaches fs (literalPath s.toDrives (replaceLast q e.returned)) d e.hostName) ∧
    (PlainName e.mangled → (Reaches fs (literalPath s.toDrives (replaceLast q e.returned)) d e.hostName ↔
      upper e.hostName = upper e.returned ∧
        Preferred fs (literalPath s.toDrives (splitDirPattern q).1) e.returned d e.hostName)) :=
  ⟨opens_iff_reaches hmap _ d (entry_ne_nil hfind he), reaches_plain hfind he⟩

/-! ### A name of one file -/

/-- A search that only the one file of a directory matches. -/
theorem buildFindState_one {name pattern : Str} (hname : name ∉ dotNames)
    (hdots : ∀ dot ∈ dotNames, globMatch dot pattern = false)
    (hmatch : globMatch (mangle83 name []).1 pattern = true) :
    buildFindState [name] pattern = [⟨name, (mangle83 name []).1⟩] := by
  have hnone : dotNames.filter (globMatch · pattern) = [] :=
    List.filter_eq_nil_iff.mpr fun dot hdot => by rw [hdots dot hdot]; decide
  have hkeep : [name].filter (· ∉ dotNames) = [name] := List.filter_cons_of_pos (decide_eq_true hname)
  unfold buildFindState
  rw [hnone, hkeep, List.insertionSort_cons, List.insertionSort_nil, List.orderedInsert_nil]
  simp only [List.map_nil, List.nil_append, mangleAll, List.filter_cons, hmatch, if_true, List.filter_nil]

/-- A host with the directory `/dos` and one file in it. -/
def oneFile (name : Str) (h : name ≠ [] ∧ '/' ∉ name) : HostFs :=
  pathFs ["dos".toList, name] (by
    intro w hw
    rcases List.mem_cons.mp hw with rfl | hw
    · exact ⟨by decide, by decide⟩
    · rw [List.mem_singleton.mp hw]
      exact h) false

def xHtm : Str := "X.HTM".toList

theorem glob_xHtm : globMatch xHtm xHtm = true ∧ ∀ dot ∈ dotNames, globMatch dot xHtm = false := by
  have hext : splitExt xHtm = (['X'], ['H', 'T', 'M']) ∧ splitExt ['.'] = ([], []) ∧
      splitExt ['.', '.'] = (['.'], []) := by decide
  have hdot : '.' ∈ xHtm := by decide
  constructor
  · simp [globMatch, hdot, hext, globMatchPart, globFrom]
  · intro dot hmem
    rcases List.mem_cons.mp hmem with rfl | hmem
    · simp [globMatch, hdot, hext, globMatchPart, globFrom]
    · rw [List.mem_singleton.mp hmem]
      simp [globMatch, hdot, hext, globMatchPart, globFrom, globFrom.retry]

/-- A search for `X.HTM` finds the one file that has this short name. -/
theorem finds_xHtm (name : Str) (h : name ≠ [] ∧ '/' ∉ name) (hdot : name ∉ dotNames)
    (hshort : (mangle83 name []).1 = xHtm) :
    int21_4E (oneFile name h) atRoot.toDrives "C:\\X.HTM".toList = some (1, [⟨name, xHtm⟩]) := by
  have hdir : ((oneFile name h).lookup (dosToHost atRoot.toDrives (oneFile name h).tree
      (splitDirPattern "C:\\X.HTM".toList).1)).filter (oneFile name h).isDir = some 1 := rfl
  have hpattern : upper (splitDirPattern "C:\\X.HTM".toList).2 = xHtm := by decide
  unfold int21_4E
  dsimp only
  rw [hdir, Option.map_some, hpattern]
  have hfound := buildFindState_one hdot glob_xHtm.2 (hshort ▸ glob_xHtm.1)
  rw [hshort] at hfound
  exact congrArg (fun entries => some (1, entries)) hfound

theorem xHtm_plain : PlainName xHtm := by
  rw [show xHtm = ['X', '.', 'H', 'T', 'M'] from rfl]
  exact ⟨List.cons_ne_nil _ _, by simp⟩

/-- `x.htm` is listed as `X.HTM`, which opens it. -/
theorem foundName_opens_iff_xHtm :
    Opens (oneFile "x.htm".toList (by decide)) atRoot "C:\\X.HTM".toList 1 "x.htm".toList := by
  have hfind := finds_xHtm "x.htm".toList (by decide) (by decide) (by decide)
  obtain ⟨hopens, hreaches⟩ := foundName_opens_iff (s := atRoot) rfl hfind (List.mem_singleton.mpr rfl)
  have hdir : (oneFile "x.htm".toList (by decide)).lookup (literalPath atRoot.toDrives
      (splitDirPattern "C:\\X.HTM".toList).1) = some 1 := by decide +kernel
  have hup : upper "x.htm".toList = upper xHtm := by decide
  refine hopens.mpr ⟨by decide +kernel, ⟨2, by decide +kernel, by decide +kernel⟩, (hreaches xHtm_plain).mpr ?_⟩
  refine ⟨hup, ?_, ?_⟩
  · rintro ⟨k, hk, hmem⟩
    obtain rfl : 1 = k := Option.some.inj (hdir.symm.trans hk)
    exact absurd hmem (by decide +kernel)
  · exact fun _ => ⟨by decide +kernel, by decide +kernel⟩

/-- `x.html` is listed as `X.HTM`, which opens nothing. -/
theorem found_not_opened : ¬ ∀ (fs : HostFs) (s : Dirs) (q : Str) (d : Nat) (entries : List FindEntry) (e : FindEntry),
    s.mappings = [] → int21_4E fs s.toDrives q = some (d, entries) → e ∈ entries → e.hostName ∉ dotNames →
      Opens fs s (replaceLast q e.returned) d e.hostName := by
  intro h
  have hfind := finds_xHtm "x.html".toList (by decide) (by decide) (by decide)
  have hopens := h _ atRoot _ _ _ _ rfl hfind (List.mem_singleton.mpr rfl) (by decide)
  have hthere := dosToHost_reaches.mpr ((opens_iff_reaches rfl _ _ (by decide)).mp hopens).2.2
  exact absurd hthere.1 (by decide +kernel)

end Dosiz.FoundNames
