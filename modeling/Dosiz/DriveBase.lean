/-
  Dosiz/DriveBase.lean
  ====================
  **Where a DOS path leads below its drive** (`dos_to_host` of `bridge.cc`).

  A drive is mounted on a host directory.  A path that is there as it is spelled is taken so; any other is walked
  name by name, in whatever case, and from the first name that is not there on it stays as it is.  The walk starts
  at the root of the host whatever the drive is mounted on: `dosToHost_right_iff`.
-/
import Dosiz.FoundNames

namespace Dosiz.DriveBase

open HostPath CurrentDir FoundNames

/-! ### Real names -/

/-- The names as the host has them, from the directory `d` on, as far as they are there in whatever case; what is
    left stays as it is. -/
def realNames (fs : HostFs) (d : Nat) : List Str → List Str
  | [] => []
  | s :: ss =>
    match (fs.names d).find? fun name => upper name = upper s with
    | none => s :: ss
    | some name => name :: (fs.child d name).elim ss (realNames fs · ss)

/-- Where the host looks up a path from. -/
def startOf (fs : HostFs) : Str → Nat
  | '/' :: _ => fs.root
  | _ => fs.workDir

/-- The host path leads to the base directory `e`, and on with the real names of the components. -/
def PathRight (fs : HostFs) (e : Nat) (comps : List Str) (result : Str) : Prop :=
  ∃ pre, segs result = pre ++ realNames fs e comps ∧ fs.find (startOf fs result) pre = some e

section Names

variable {fs : HostFs}

theorem realNames_length : ∀ (ss : List Str) (d : Nat), (realNames fs d ss).length = ss.length
  | [], _ => rfl
  | s :: ss, d => by
    unfold realNames
    split
    · rfl
    · cases fs.child d _ with
      | none => rfl
      | some n => exact congrArg (· + 1) (realNames_length ss n)

theorem listed_name {d : Nat} {s name : Str} (h : (fs.names d).find? (fun n => upper n = upper s) = some name) :
    ∃ n, fs.child d name = some n ∧ fs.foldChild d s = some n := by
  obtain ⟨n, hn⟩ := Option.ne_none_iff_exists'.mp ((fs.listed d name).mp (List.mem_of_find?_eq_some h))
  exact ⟨n, hn, by rw [HostFs.foldChild, h, Option.bind_some, hn]⟩

theorem unlisted_name {d : Nat} {s : Str} (h : (fs.names d).find? (fun n => upper n = upper s) = none) :
    fs.child d s = none ∧ fs.foldChild d s = none := by
  constructor
  · by_contra hne
    have hno := List.find?_eq_none.mp h s ((fs.listed d s).mpr hne)
    exact hno (decide_eq_true rfl)
  · rw [HostFs.foldChild, h]
    rfl

/-- The real names lead where the names do in whatever case. -/
theorem find_realNames : ∀ (ss : List Str) (d : Nat), fs.find d (realNames fs d ss) = fs.foldFind d ss
  | [], _ => rfl
  | s :: ss, d => by
    rw [HostFs.foldFind, List.foldlM_cons, realNames]
    cases hfind : (fs.names d).find? fun name => upper name = upper s with
    | none =>
      obtain ⟨hchild, hfold⟩ := unlisted_name hfind
      dsimp only
      rw [HostFs.find, List.foldlM_cons, hchild, hfold]
      rfl
    | some name =>
      obtain ⟨n, hchild, hfold⟩ := listed_name hfind
      dsimp only
      rw [HostFs.find, List.foldlM_cons, hchild, hfold]
      exact find_realNames ss n

/-- The real names of the beginning are the beginning of the real names. -/
theorem realNames_take : ∀ (bs cs : List Str) (d : Nat), (realNames fs d (bs ++ cs)).take bs.length = realNames fs d bs
  | [], _, _ => rfl
  | b :: bs, cs, d => by
    rw [List.cons_append, realNames, realNames]
    cases hfind : (fs.names d).find? fun name => upper name = upper b with
    | none => exact congrArg (b :: ·) List.take_left
    | some name =>
      obtain ⟨n, hchild, -⟩ := listed_name hfind
      dsimp only
      rw [hchild]
      exact congrArg (name :: ·) (realNames_take bs cs n)

theorem realNames_append : ∀ {bs : List Str} {d e : Nat}, fs.foldFind d bs = some e → ∀ cs : List Str,
    realNames fs d (bs ++ cs) = realNames fs d bs ++ realNames fs e cs
  | [], _, _, h, cs => by
    cases h
    rfl
  | b :: bs, d, e, h, cs => by
    rw [HostFs.foldFind, List.foldlM_cons] at h
    obtain ⟨n, hb, h⟩ := Option.bind_eq_some_iff.mp h
    rw [List.cons_append, realNames, realNames]
    cases hfind : (fs.names d).find? fun name => upper name = upper b with
    | none =>
      rw [(unlisted_name hfind).2] at hb
      cases hb
    | some name =>
      obtain ⟨n', hchild, hfold⟩ := listed_name hfind
      obtain rfl : n = n' := Option.some.inj (hb.symm.trans hfold)
      dsimp only
      rw [hchild]
      exact congrArg (name :: ·) (realNames_append h cs)

/-- Names that are there as they are spelled are the real ones. -/
theorem realNames_of_find (h : fs.OneCase) : ∀ {ss : List Str} {d n : Nat}, fs.find d ss = some n →
    realNames fs d ss = ss
  | [], _, _, _ => rfl
  | s :: ss, d, n, hn => by
    rw [HostFs.find, List.foldlM_cons] at hn
    obtain ⟨e, he, hrest⟩ := Option.bind_eq_some_iff.mp hn
    have hne : fs.child d s ≠ none := by
      rw [he]
      exact Option.some_ne_none e
    rw [realNames]
    cases hfind : (fs.names d).find? fun name => upper name = upper s with
    | none => exact absurd (unlisted_name hfind).1 hne
    | some name =>
      have hup : upper name = upper s := by simpa using List.find?_some hfind
      have hchild : fs.child d name ≠ none := (fs.listed d name).mp (List.mem_of_find?_eq_some hfind)
      obtain rfl : name = s := h d name s hchild hne hup
      dsimp only
      rw [he]
      exact congrArg (name :: ·) (realNames_of_find h hrest)

end Names

/-! ### The literal path -/

section Literal

variable {fs : HostFs} {s : Drives} {p base : Str}

theorem lookup_eq {path : Str} (h : path ≠ []) : fs.lookup path = fs.find (startOf fs path) (segs path) := by
  obtain ⟨c, rest, rfl⟩ := List.exists_cons_of_ne_nil h
  by_cases hc : c = '/'
  · subst hc
    rw [lookup_slash]
    rfl
  · unfold HostFs.lookup startOf
    split
    · rename_i heq
      cases heq
    · rename_i heq
      exact absurd (List.cons.inj heq).1 hc
    · split
      · rename_i heq
        exact absurd (List.cons.inj heq).1 hc
      · rfl

theorem startOf_append {path t : Str} (h : path ≠ []) : startOf fs (path ++ t) = startOf fs path := by
  obtain ⟨c, rest, rfl⟩ := List.exists_cons_of_ne_nil h
  by_cases hc : c = '/'
  · subst hc
    rfl
  · rw [List.cons_append]
    unfold startOf
    split
    · rename_i heq
      exact absurd (List.cons.inj heq).1 hc
    · split
      · rename_i heq
        exact absurd (List.cons.inj heq).1 hc
      · rfl

end Literal

/-! ### The walk -/

/-- The walk puts the real names behind what it has resolved. -/
theorem walk_realNames {fs : HostFs} : ∀ {l : List Str}, (l = [] ∨ ∃ s, l = s :: afterSlashes s) →
    ∀ (resolved : Str) (d : Nat), FromRoot resolved → fs.find fs.root (segs resolved) = some d →
      FromRoot (walk fs.tree resolved l) ∧
        segs (walk fs.tree resolved l) = segs resolved ++ realNames fs d (namesOf l) := by
  intro l
  induction l with
  | nil => exact fun _ _ _ hroot _ => ⟨hroot, (List.append_nil _).symm⟩
  | cons rest more ih =>
    intro hl resolved d hroot hd
    obtain ⟨s, hs⟩ := hl.resolve_left (List.cons_ne_nil _ _)
    obtain ⟨rfl, rfl⟩ := List.cons.inj hs
    have hmore := ih (afterSlashes_cases rest)
    rw [walk]
    by_cases hseg : rest.takeWhile (· ≠ '/') = []
    · have hnames : namesOf (rest :: afterSlashes rest) = namesOf (afterSlashes rest) := by
        simp only [namesOf, List.map_cons, hseg]
        rfl
      rw [if_pos hseg, hnames]
      exact hmore _ _ hroot hd
    · have hnames : namesOf (rest :: afterSlashes rest) =
          rest.takeWhile (· ≠ '/') :: namesOf (afterSlashes rest) := by
        simp only [namesOf, List.map_cons]
        exact List.filter_cons_of_pos (decide_eq_true hseg)
      have hmatch : matchEntry fs.tree (if resolved = [] then ['/'] else resolved) (rest.takeWhile (· ≠ '/')) =
          (fs.names d).find? fun name => upper name = upper (rest.takeWhile (· ≠ '/')) := by
        rw [matchEntry, entries_at hroot hd]
        rfl
      rw [if_neg hseg, hmatch, hnames, realNames]
      cases hfind : (fs.names d).find? fun name => upper name = upper (rest.takeWhile (· ≠ '/')) with
      | none =>
        refine ⟨hroot.append rest, ?_⟩
        dsimp only
        rw [segs_append]
        exact congrArg (segs resolved ++ ·) hnames
      | some name =>
        obtain ⟨e, he, -⟩ := listed_name hfind
        obtain ⟨hne, hslash⟩ := fs.proper d name (List.mem_of_find?_eq_some hfind)
        have hd' : fs.find fs.root (segs (resolved ++ '/' :: name)) = some e := by
          rw [segs_append, segs_name hne hslash, fs.find_append, hd, Option.bind_some, HostFs.find,
            List.foldlM_cons, he]
          rfl
        obtain ⟨hroot', hsegs⟩ := hmore _ _ (hroot.append name) hd'
        refine ⟨hroot', hsegs.trans ?_⟩
        dsimp only
        rw [he, segs_append, segs_name hne hslash, List.append_assoc]
        rfl

/-! ### Below the base -/

section Below

variable {fs : HostFs} {s : Drives} {p base : Str} {e : Nat}

/-- The path is there as it is spelled exactly if its components are, below the base. -/
theorem lookup_literal (hm : s.mounted (dosDrive s p) = some base) (hbase : fs.lookup base = some e) :
    fs.lookup (literalPath s p) = fs.find e (dosNames (dropDrive p)) := by
  have hne : base ≠ [] := by
    rintro rfl
    cases hbase
  obtain ⟨⟨t, ht⟩, hsegs⟩ := literalPath_base hm hne
  have hlit : literalPath s p ≠ [] := by
    rw [ht]
    exact List.append_ne_nil_of_left_ne_nil hne t
  rw [lookup_eq hne] at hbase
  rw [lookup_eq hlit, hsegs, fs.find_append, ht, startOf_append hne, hbase, Option.bind_some]

/-- A path that is not there as it is spelled becomes the real names from the root. -/
theorem dosToHost_walked (hm : s.mounted (dosDrive s p) = some base) (hbase : fs.lookup base = some e)
    (hmiss : fs.find e (dosNames (dropDrive p)) = none) : startOf fs (dosToHost s fs.tree p) = fs.root ∧
      segs (dosToHost s fs.tree p) = realNames fs fs.root (segs base ++ dosNames (dropDrive p)) := by
  have hne : base ≠ [] := by
    rintro rfl
    cases hbase
  obtain ⟨-, hsegs⟩ := literalPath_base hm hne
  have hlookup := (lookup_literal hm hbase).trans hmiss
  have hex : ¬ fs.tree.exists_ (literalPath s p) = true := by
    show ¬ (fs.lookup (literalPath s p)).isSome = true
    rw [hlookup]
    decide
  have hsome : segs (literalPath s p) ≠ [] := by
    rw [hsegs]
    intro hnil
    rw [(List.append_eq_nil_iff.mp hnil).2] at hmiss
    cases hmiss
  obtain ⟨rest, hrest, hnames⟩ := dosToHost_walk rfl hex hsome
  obtain ⟨hroot, hreal⟩ := @walk_realNames fs _ (Or.inr ⟨rest, rfl⟩) [] fs.root (Or.inl rfl) rfl
  rw [← hrest, hnames, segs_nil, List.nil_append, hsegs] at hreal
  rw [← hrest] at hroot
  refine ⟨?_, hreal⟩
  rcases hroot with hnil | ⟨t, ht⟩
  · have hlen := congrArg List.length hreal
    rw [hnil, realNames_length, ← hsegs] at hlen
    exact absurd (List.length_eq_zero_iff.mp hlen.symm) hsome
  · rw [ht]
    rfl

/-- A path that is there as it is spelled. -/
theorem pathRight_spelled (h : fs.OneCase) (hm : s.mounted (dosDrive s p) = some base) (hbase : fs.lookup base = some e)
    (hfind : (fs.find e (dosNames (dropDrive p))).isSome) :
    PathRight fs e (dosNames (dropDrive p)) (dosToHost s fs.tree p) := by
  obtain ⟨n, hn⟩ := Option.isSome_iff_exists.mp hfind
  have hne : base ≠ [] := by
    rintro rfl
    cases hbase
  obtain ⟨⟨t, ht⟩, hsegs⟩ := literalPath_base hm hne
  have hhost : dosToHost s fs.tree p = literalPath s p := by
    have hex : fs.tree.exists_ (literalPath s p) = true := by
      show (fs.lookup (literalPath s p)).isSome = true
      rw [lookup_literal hm hbase, hfind]
    rw [dosToHost, if_pos hex]
  rw [lookup_eq hne] at hbase
  rw [hhost]
  refine ⟨segs base, ?_, ?_⟩
  · rw [hsegs, realNames_of_find h hn]
  · rw [ht, startOf_append hne, hbase]

/-- A path that is walked, with the base where the walk looks for it. -/
theorem pathRight_walked (hm : s.mounted (dosDrive s p) = some base) (hbase : fs.lookup base = some e)
    (hmiss : fs.find e (dosNames (dropDrive p)) = none) (hdir : fs.foldFind fs.root (segs base) = some e) :
    PathRight fs e (dosNames (dropDrive p)) (dosToHost s fs.tree p) := by
  obtain ⟨hstart, hsegs⟩ := dosToHost_walked hm hbase hmiss
  rw [PathRight, hstart, hsegs]
  exact ⟨realNames fs fs.root (segs base), realNames_append hdir _, (find_realNames _ _).trans hdir⟩

/-- Below a base from the root of the host every path is right. -/
theorem pathRight_absolute (h : fs.OneCase) (hm : s.mounted (dosDrive s p) = some ('/' :: base))
    (hbase : fs.lookup ('/' :: base) = some e) : PathRight fs e (dosNames (dropDrive p)) (dosToHost s fs.tree p) := by
  cases hfind : fs.find e (dosNames (dropDrive p)) with
  | some n => exact pathRight_spelled h hm hbase (by rw [hfind]; rfl)
  | none =>
    refine pathRight_walked hm hbase hfind (HostFs.foldFind_of_find h ?_)
    rw [← lookup_slash, hbase]

/-- **Below the base.**  `dos_to_host` leads to the base directory of the drive and on with the real names exactly
    if the path is there as it is spelled, or the names of the base lead to the base directory from the root of
    the host as well. -/
theorem dosToHost_right_iff (h : fs.OneCase) (hm : s.mounted (dosDrive s p) = some base)
    (hbase : fs.lookup base = some e) : PathRight fs e (dosNames (dropDrive p)) (dosToHost s fs.tree p) ↔
      (fs.find e (dosNames (dropDrive p))).isSome ∨ fs.foldFind fs.root (segs base) = some e := by
  cases hfind : fs.find e (dosNames (dropDrive p)) with
  | some n => exact iff_of_true (pathRight_spelled h hm hbase (by rw [hfind]; rfl)) (Or.inl rfl)
  | none =>
    refine ⟨fun ⟨pre, hpre, hdir⟩ => Or.inr ?_, fun hor => pathRight_walked hm hbase hfind (hor.resolve_left (by simp))⟩
    obtain ⟨hstart, hsegs⟩ := dosToHost_walked hm hbase hfind
    rw [hsegs] at hpre
    -- both sides have as many names, so what leads to the base is the base itself
    have hlen : pre.length = (segs base).length := by
      have hlens := congrArg List.length hpre
      rw [realNames_length, List.length_append, List.length_append, realNames_length] at hlens
      omega
    have htake := congrArg (List.take (segs base).length) hpre
    rw [realNames_take, List.take_left' hlen] at htake
    rw [← find_realNames, htake, ← hstart, hdir]

end Below

/-- A host with the file `/home/dos/a.txt`, and the program started in `/home`. -/
def homeFs : HostFs :=
  { pathFs ["home".toList, "dos".toList, "a.txt".toList] (by decide +kernel) false with workDir := 1 }

/-- Drive C alone, mounted on `base`. -/
def onlyC (base : Str) : Drives := ⟨'C', fun d => if d = 'C' then some base else none⟩

theorem homeFs_oneCase : homeFs.OneCase := @pathFs_oneCase _ (by decide +kernel) false

theorem dosToHost_right_iff_home : PathRight homeFs 2 ["A.TXT".toList]
    (dosToHost (onlyC "/home/dos".toList) homeFs.tree "C:\\A.TXT".toList) :=
  (dosToHost_right_iff homeFs_oneCase (rfl : (onlyC "/home/dos".toList).mounted 'C' = _) rfl).mpr (Or.inr rfl)

/-- Mounted on `dos` in the working directory, the drive's file is looked for in `/dos`. -/
theorem dosToHost_relative : ¬ PathRight homeFs 2 ["A.TXT".toList]
    (dosToHost (onlyC "dos".toList) homeFs.tree "C:\\A.TXT".toList) := by
  rintro ⟨pre, hpre, -⟩
  have hreal : realNames homeFs 2 ["A.TXT".toList] = ["a.txt".toList] := by decide +kernel
  have hlast := congrArg List.getLast? hpre
  rw [hreal, List.getLast?_concat] at hlast
  exact absurd hlast (by decide +kernel)

end Dosiz.DriveBase
