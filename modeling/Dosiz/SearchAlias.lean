/-
  Dosiz/SearchAlias.lean
  ======================
  **One alias for one file** (`build_find_state` of `bridge.cc`).

  Every search sorts the whole directory and gives out the short names before it looks at the pattern.  So the
  alias of a file is a function of the set of names (`aliasIn`), and a search lists the files whose alias
  matches, once each: `search_alias`.
-/
import Dosiz.ShortNames

namespace Dosiz.FoundNames

open HostPath CurrentDir

/-! ### The alias of a file -/

/-- The names of a directory in the order of their bytes. -/
def inOrder (names : Finset Str) : List Str := (names.filter (· ∉ dotNames)).sort (· ≤ ·)

/-- The alias a file has among the names of its directory; "." and ".." keep theirs. -/
def aliasIn (names : Finset Str) (hostName : Str) : Str :=
  (((mangleAll (inOrder names) []).find? (·.hostName = hostName)).map FindEntry.mangled).getD hostName

/-- Two searches that come to the same file give it the same alias. -/
def SameAliases (es₁ es₂ : List FindEntry) : Prop :=
  ∀ e₁ ∈ es₁, ∀ e₂ ∈ es₂, e₁.hostName = e₂.hostName → e₁.mangled = e₂.mangled

/-! ### Names and entries -/

/-- In whatever order the names come, sorted they are the same list. -/
theorem inOrder_toFinset {names : List Str} (hnodup : names.Nodup) : inOrder names.toFinset = sortedNames names := by
  have hset : names.toFinset.filter (· ∉ dotNames) = (sortedNames names).toFinset := by
    rw [sortedNames, List.toFinset_eq_of_perm _ _ (List.perm_insertionSort _ _), List.toFinset_filter]
    simp only [decide_eq_true_eq]
  rw [inOrder, hset]
  exact (List.toFinset_sort _ (sortedNames_nodup hnodup)).mpr (List.pairwise_insertionSort _ _)

theorem find?_hostName {entries : List FindEntry} (hnodup : (entries.map FindEntry.hostName).Nodup) {e : FindEntry}
    (he : e ∈ entries) : entries.find? (·.hostName = e.hostName) = some e := by
  induction entries with
  | nil => cases he
  | cons e' entries ih =>
    rw [List.map_cons, List.nodup_cons] at hnodup
    rcases List.mem_cons.mp he with rfl | he
    · exact List.find?_cons_of_pos (decide_eq_true rfl)
    · have hne : e'.hostName ≠ e.hostName := fun heq => hnodup.1 (heq ▸ List.mem_map_of_mem he)
      rw [List.find?_cons_of_neg (by simpa using hne)]
      exact ih hnodup.2 he

section Listing

variable {names : List Str}

theorem mem_sorted {n : Str} : n ∈ sortedNames names ↔ n ∈ names ∧ n ∉ dotNames := by
  rw [sortedNames, (List.perm_insertionSort _ _).mem_iff, List.mem_filter, decide_eq_true_eq]

theorem assigned_hostNames : (assigned names).map FindEntry.hostName = sortedNames names := mangleAll_hostNames _ _

theorem aliasIn_eq (hnodup : names.Nodup) (n : Str) : aliasIn names.toFinset n =
    (((assigned names).find? (·.hostName = n)).map FindEntry.mangled).getD n := by
  rw [aliasIn, inOrder_toFinset hnodup]
  rfl

theorem aliasIn_dot {n : Str} (hnodup : names.Nodup) (h : n ∈ dotNames) : aliasIn names.toFinset n = n := by
  rw [aliasIn_eq hnodup]
  have hnone : (assigned names).find? (·.hostName = n) = none := by
    refine List.find?_eq_none.mpr fun e he heq => ?_
    have hmem : e.hostName ∈ (assigned names).map FindEntry.hostName := List.mem_map_of_mem he
    rw [assigned_hostNames, of_decide_eq_true heq] at hmem
    exact (mem_sorted.mp hmem).2 h
  rw [hnone]
  rfl

/-- The entries before a pattern selects some: each file with its alias. -/
theorem mem_assigned (hnodup : names.Nodup) {e : FindEntry} :
    e ∈ assigned names ↔
      (e.hostName ∈ names ∧ e.hostName ∉ dotNames) ∧ e.mangled = aliasIn names.toFinset e.hostName := by
  have hkeys : ((assigned names).map FindEntry.hostName).Nodup := by
    rw [assigned_hostNames]
    exact sortedNames_nodup hnodup
  have halias : ∀ e' ∈ assigned names, aliasIn names.toFinset e'.hostName = e'.mangled := by
    intro e' he'
    rw [aliasIn_eq hnodup, find?_hostName hkeys he']
    rfl
  rw [← mem_sorted, ← assigned_hostNames]
  constructor
  · exact fun he => ⟨List.mem_map_of_mem he, (halias e he).symm⟩
  · rintro ⟨hmem, heq⟩
    obtain ⟨e', he', hsame⟩ := List.mem_map.mp hmem
    have hmangled : e'.mangled = e.mangled := by rw [heq, ← hsame, halias e' he']
    obtain rfl : e' = e := by
      cases e
      cases e'
      cases hsame
      cases hmangled
      rfl
    exact he'

theorem buildFindState_eq (names : List Str) (pattern : Str) : buildFindState names pattern =
    (dotNames.filter (globMatch · pattern)).map (fun n => ⟨n, n⟩) ++
      (assigned names).filter (globMatch ·.mangled pattern) := rfl

/-- A search lists the files whose alias matches. -/
theorem mem_buildFindState (hnodup : names.Nodup) {pattern : Str} {e : FindEntry} :
    e ∈ buildFindState names pattern ↔ (e.hostName ∈ names ∨ e.hostName ∈ dotNames) ∧
      e.mangled = aliasIn names.toFinset e.hostName ∧ globMatch e.mangled pattern = true := by
  rw [buildFindState_eq, List.mem_append, List.mem_map, List.mem_filter, mem_assigned hnodup]
  constructor
  · rintro (⟨n, hn, rfl⟩ | ⟨⟨⟨hmem, -⟩, heq⟩, hglob⟩)
    · obtain ⟨hdot, hglob⟩ := List.mem_filter.mp hn
      exact ⟨.inr hdot, (aliasIn_dot hnodup hdot).symm, hglob⟩
    · exact ⟨.inl hmem, heq, hglob⟩
  · rintro ⟨hmem, heq, hglob⟩
    by_cases hdot : e.hostName ∈ dotNames
    · refine .inl ⟨e.hostName, ?_, ?_⟩
      · rw [aliasIn_dot hnodup hdot] at heq
        exact List.mem_filter.mpr ⟨hdot, heq ▸ hglob⟩
      · rw [aliasIn_dot hnodup hdot] at heq
        cases e
        cases heq
        rfl
    · exact .inr ⟨⟨⟨hmem.resolve_right hdot, hdot⟩, heq⟩, hglob⟩

theorem buildFindState_nodup (hnodup : names.Nodup) (pattern : Str) :
    ((buildFindState names pattern).map FindEntry.hostName).Nodup := by
  have hdots : dotNames.Nodup := by decide
  have hkeep : (((assigned names).filter (globMatch ·.mangled pattern)).map FindEntry.hostName).Sublist
      (sortedNames names) := by
    rw [← assigned_hostNames]
    exact List.filter_sublist.map _
  have hsplit : (buildFindState names pattern).map FindEntry.hostName = dotNames.filter (globMatch · pattern) ++
      ((assigned names).filter (globMatch ·.mangled pattern)).map FindEntry.hostName := by
    rw [buildFindState_eq, List.map_append, List.map_map]
    exact congrArg (· ++ _) (List.map_id _)
  rw [hsplit]
  refine (hdots.filter _).append ((sortedNames_nodup hnodup).sublist hkeep) fun n hn hn' => ?_
  exact (mem_sorted.mp (hkeep.subset hn')).2 (List.mem_filter.mp hn).1

end Listing

/-! ### Two searches -/

/-- **One alias for one file.**  Two searches of a directory, with any patterns and in whatever order the host
    lists the names, give a file the same alias; and a search lists, once each, the files of the directory whose
    alias matches its pattern. -/
theorem search_alias {fs₁ fs₂ : HostFs} {s₁ s₂ : Drives} {q₁ q₂ : Str} {d₁ d₂ : Nat} {es₁ es₂ : List FindEntry}
    (h₁ : int21_4E fs₁ s₁ q₁ = some (d₁, es₁)) (h₂ : int21_4E fs₂ s₂ q₂ = some (d₂, es₂))
    (hnodup₁ : (fs₁.names d₁).Nodup) (hnodup₂ : (fs₂.names d₂).Nodup)
    (hsame : ∀ n, n ∈ fs₁.names d₁ ↔ n ∈ fs₂.names d₂) :
    SameAliases es₁ es₂ ∧
      (∀ e, e ∈ es₁ ↔ (e.hostName ∈ fs₁.names d₁ ∨ e.hostName ∈ dotNames) ∧
        e.mangled = aliasIn (fs₁.names d₁).toFinset e.hostName ∧
          globMatch e.mangled (upper (splitDirPattern q₁).2) = true) ∧
      (es₁.map FindEntry.hostName).Nodup := by
  have hset : (fs₁.names d₁).toFinset = (fs₂.names d₂).toFinset := by
    ext n
    rw [List.mem_toFinset, List.mem_toFinset, hsame]
  have hentries : ∀ {fs : HostFs} {s : Drives} {q : Str} {d : Nat} {es : List FindEntry},
      int21_4E fs s q = some (d, es) → es = buildFindState (fs.names d) (upper (splitDirPattern q).2) := by
    intro fs s q d es h
    obtain ⟨d', -, heq⟩ := Option.map_eq_some_iff.mp h
    obtain ⟨rfl, rfl⟩ := Prod.mk.inj heq
    rfl
  obtain rfl := hentries h₁
  obtain rfl := hentries h₂
  refine ⟨fun e₁ he₁ e₂ he₂ hhost => ?_, fun e => mem_buildFindState hnodup₁, buildFindState_nodup hnodup₁ _⟩
  rw [((mem_buildFindState hnodup₁).mp he₁).2.1, ((mem_buildFindState hnodup₂).mp he₂).2.1, hset, hhost]

/-- A host with the directory `/dos` and files in it. -/
def someFiles (files : List Str) (h : ∀ n ∈ files, n ≠ [] ∧ '/' ∉ n) : HostFs where
  root := 0
  workDir := 0
  child d n := if d = 0 ∧ n = "dos".toList then some 1 else if d = 1 ∧ n ∈ files then some 2 else none
  names d := if d = 0 then ["dos".toList] else if d = 1 then files else []
  isDir d := d < 2
  listed d n := by
    rcases d with _ | _ | d <;> simp
  proper d n hn := by
    rcases d with _ | _ | d
    · rw [List.mem_singleton.mp hn]
      decide
    · exact h n hn
    · cases hn

def readMe : List Str := ["Read Me First.txt".toList, "readme.txt".toList, "READ ME NOW.TXT".toList]

theorem search_alias_reversed :
    SameAliases (buildFindState readMe "*.*".toList) (buildFindState readMe.reverse "READM?~1.*".toList) :=
  (@search_alias (someFiles readMe (by decide +kernel)) (someFiles readMe.reverse (by decide +kernel))
    atRoot.toDrives atRoot.toDrives "C:\\*.*".toList "C:\\readm?~1.*".toList 1 1 _ _ rfl rfl (by decide +kernel)
    (by decide +kernel) (fun _ => List.mem_reverse.symm)).1

end Dosiz.FoundNames
