/-
  Dosiz/ShortNames.lean
  =====================
  **The short names of a directory** (`mangle_8_3`, `build_find_state` of `bridge.cc`).

  A host name is split at its last dot.  What stands before is the base of the short name if it has
  eight characters at most and the result is not taken; else it is cut and numbered.  Nothing looks at the
  base itself: it may be empty, or have dots.  After 999 numbers the host's name is given as it is.
  `shortNames_iff` says for which directories the short names are distinct 8.3 names.
-/
import Mathlib.Data.Finset.Sort
import Dosiz.FoundNames

namespace Dosiz.FoundNames

open HostPath CurrentDir

/-! ### 8.3 names -/

/-- A base of one to eight characters, and an extension of three at most behind the only dot. -/
def Valid83 (s : Str) : Prop :=
  ∃ base ext, s = shortName base ext ∧ 1 ≤ base.length ∧ base.length ≤ 8 ∧ '.' ∉ base ∧ ext.length ≤ 3 ∧ '.' ∉ ext

/-- The names of a directory in the order they get their short names. -/
def sortedNames (names : List Str) : List Str := (names.filter (· ∉ dotNames)).insertionSort (· ≤ ·)

/-- The short names of a directory, before a pattern selects some of them. -/
def assigned (names : List Str) : List FindEntry := mangleAll (sortedNames names) []

/-- The short names are pairwise distinct, and each is an 8.3 name. -/
def ShortNamesGood (names : List Str) : Prop :=
  ((assigned names).map FindEntry.mangled).Nodup ∧ ∀ e ∈ assigned names, Valid83 e.mangled

/-! ### The condition -/

/-- Base and extension, as `mangle_8_3` cuts them. -/
def baseOf (name : Str) : Str := upper (splitExt name).1
def extOf (name : Str) : Str := (upper (splitExt name).2).take 3

/-- The base makes an 8.3 name with the extension: it has one to eight characters and no dot, or, without an
    extension, is an 8.3 name itself. -/
def Shaped (base ext : Str) : Prop :=
  if ext = [] then Valid83 base else 1 ≤ base.length ∧ base.length ≤ 8 ∧ '.' ∉ base

/-- The base that is left before the number. -/
def numberedBase (base : Str) (n : Nat) : Str :=
  base.take (8 - ('~' :: Nat.toDigits 10 n).length) ++ '~' :: Nat.toDigits 10 n

/-- With `used` taken, the name gets an 8.3 name of its own: its base is short, the result is free, and of the
    right shape; or the first free number below 1000 leaves a base of the right shape; or no number is free, and
    the name itself is an 8.3 name with a small letter. -/
def Nameable (used : List Str) (name : Str) : Prop :=
  if (baseOf name).length ≤ 8 ∧ shortName (baseOf name) (extOf name) ∉ used then Shaped (baseOf name) (extOf name)
  else
    (∃ n, 1 ≤ n ∧ n < 1000 ∧ numbered (baseOf name) (extOf name) n ∉ used ∧
      (∀ k, 1 ≤ k → k < n → numbered (baseOf name) (extOf name) k ∈ used) ∧
      Shaped (numberedBase (baseOf name) n) (extOf name)) ∨
    ((∀ n, 1 ≤ n → n < 1000 → numbered (baseOf name) (extOf name) n ∈ used) ∧ Valid83 name ∧ upper name ≠ name)

/-- Each name in turn. -/
def EachNameable : List Str → List Str → Prop
  | _, [] => True
  | used, name :: names => Nameable used name ∧ EachNameable (mangle83 name used).2 names

/-! ### Shapes -/

theorem splitExt_ext (s : Str) : '.' ∉ (splitExt s).2 := by
  unfold splitExt splitLast
  split
  · exact List.not_mem_nil
  · intro h
    have hmem := List.mem_reverse.mp h
    have hno := List.all_takeWhile (p := fun c : Char => !decide (c = '.')) (l := s.reverse)
    have hdot := List.all_eq_true.mp hno '.' hmem
    simp at hdot

theorem splitExt_plain {s : Str} (h : '.' ∉ s) : splitExt s = (s, []) := by
  have hdrop : s.reverse.dropWhile (fun c => !decide (c = '.')) = [] := by
    refine List.dropWhile_eq_nil_iff.mpr fun c hc => ?_
    have hne : c ≠ '.' := fun hdot => h (hdot ▸ List.mem_reverse.mp hc)
    simp [hne]
  unfold splitExt splitLast
  rw [hdrop]
  rfl

theorem splitExt_short {base ext : Str} (hext : ext ≠ []) (h : '.' ∉ ext) :
    splitExt (shortName base ext) = (base, ext) := by
  have hlast : splitLast (· = '.') (base ++ '.' :: ext) = some (base, ext) :=
    splitLast_mid (by decide) fun x hx => decide_eq_false fun hdot : x = '.' => h (hdot ▸ hx)
  rw [shortName, if_neg hext, splitExt, hlast]
  rfl

theorem upper_dot {s : Str} : '.' ∈ upper s ↔ '.' ∈ s := by
  unfold upper
  rw [List.mem_map]
  constructor
  · rintro ⟨c, hc, hdot⟩
    rw [← (toUpper_eq_iff (by decide)).mp hdot]
    exact hc
  · exact fun h => ⟨'.', h, by decide⟩

theorem upper_take (n : Nat) (s : Str) : upper (s.take n) = (upper s).take n := List.map_take

theorem upper_shortName (base ext : Str) : upper (shortName base ext) = shortName (upper base) (upper ext) := by
  unfold shortName upper
  by_cases h : ext = []
  · subst h
    rfl
  · rw [if_neg h, if_neg (by simpa using h), List.map_append, List.map_cons]
    rfl

theorem baseOf_upper (name : Str) : upper (baseOf name) = baseOf name := HostFs.upper_upper _

theorem extOf_upper (name : Str) : upper (extOf name) = extOf name := by
  rw [extOf, upper_take, HostFs.upper_upper]

theorem extOf_dot (name : Str) : '.' ∉ extOf name := fun h =>
  splitExt_ext name (upper_dot.mp (List.mem_of_mem_take h))

theorem extOf_length (name : Str) : (extOf name).length ≤ 3 := List.length_take_le _ _

theorem upper_digits (n : Nat) : upper ('~' :: Nat.toDigits 10 n) = '~' :: Nat.toDigits 10 n := by
  have hfix : ∀ c ∈ '~' :: Nat.toDigits 10 n, c.toUpper = c := by
    intro c hc
    refine toUpper_of_not_lower fun hlow => ?_
    rcases List.mem_cons.mp hc with rfl | hc
    · exact absurd hlow (by decide)
    · have hdigit := Nat.isDigit_of_mem_toDigits (by decide) (by decide) hc
      have hle : 97 ≤ c.toNat := of_decide_eq_true (Bool.and_eq_true_iff.mp hlow).1
      have hge : c.toNat ≤ 57 := of_decide_eq_true (Bool.and_eq_true_iff.mp hdigit).2
      omega
  exact (List.map_congr_left hfix).trans (List.map_id _)

theorem valid83_short_iff {base ext : Str} (hext : ext.length ≤ 3) (hdot : '.' ∉ ext) :
    Valid83 (shortName base ext) ↔ Shaped base ext := by
  unfold Shaped
  by_cases h : ext = []
  · rw [if_pos h, h]
    rfl
  · rw [if_neg h]
    constructor
    · rintro ⟨b, e, heq, h₁, h₂, hb, h₃, he⟩
      by_cases hnil : e = []
      · -- without an extension there would be no dot
        rw [hnil, shortName, shortName, if_neg h, if_pos rfl] at heq
        exact absurd (heq ▸ List.mem_append_right _ List.mem_cons_self) hb
      · have hsplit := congrArg splitExt heq
        rw [splitExt_short h hdot, splitExt_short hnil he] at hsplit
        obtain ⟨rfl, rfl⟩ := Prod.mk.inj hsplit
        exact ⟨h₁, h₂, hb⟩
    · rintro ⟨h₁, h₂, hb⟩
      exact ⟨base, ext, rfl, h₁, h₂, hb, hext, hdot⟩

/-- An 8.3 name is, in upper case, its own short name. -/
theorem Valid83.short {name : Str} (h : Valid83 name) :
    (baseOf name).length ≤ 8 ∧ shortName (baseOf name) (extOf name) = upper name := by
  obtain ⟨b, e, rfl, -, h₂, hb, h₃, he⟩ := h
  unfold baseOf extOf
  by_cases hnil : e = []
  · subst hnil
    rw [show shortName b [] = b from rfl, splitExt_plain hb]
    exact ⟨by simpa [upper] using h₂, rfl⟩
  · rw [splitExt_short hnil he, upper_shortName]
    refine ⟨by simpa [upper] using h₂, ?_⟩
    rw [List.take_of_length_le (by simpa [upper] using h₃)]

theorem upper_numbered (name : Str) (n : Nat) :
    upper (numbered (baseOf name) (extOf name) n) = numbered (baseOf name) (extOf name) n := by
  have hbase : upper (numberedBase (baseOf name) n) = numberedBase (baseOf name) n := by
    rw [numberedBase, upper, List.map_append]
    exact congrArg₂ (· ++ ·) ((upper_take _ _).trans (congrArg _ (baseOf_upper name))) (upper_digits n)
  exact (upper_shortName _ _).trans (congrArg₂ shortName hbase (extOf_upper name))

theorem upper_short (name : Str) :
    upper (shortName (baseOf name) (extOf name)) = shortName (baseOf name) (extOf name) := by
  rw [upper_shortName, baseOf_upper, extOf_upper]

/-! ### One name -/

section Step

variable {used : List Str} {name : Str}

theorem firstNumbered_none {base ext : Str} : ∀ {fuel n : Nat}, firstNumbered used base ext fuel n = none ↔
    ∀ k, n ≤ k → k < n + fuel → numbered base ext k ∈ used
  | 0, n => by
    refine iff_of_true rfl fun k h₁ h₂ => ?_
    omega
  | fuel + 1, n => by
    unfold firstNumbered
    by_cases h : numbered base ext n ∈ used
    · rw [if_pos h, firstNumbered_none]
      constructor
      · intro hall k h₁ h₂
        rcases Nat.eq_or_lt_of_le h₁ with rfl | h₁
        · exact h
        · exact hall k h₁ (by omega)
      · exact fun hall k h₁ h₂ => hall k (by omega) (by omega)
    · rw [if_neg h]
      exact iff_of_false (Option.some_ne_none _) fun hall => h (hall n (Nat.le_refl n) (by omega))

theorem firstNumbered_some {base ext candidate : Str} : ∀ {fuel n : Nat},
    firstNumbered used base ext fuel n = some candidate ↔ ∃ k, n ≤ k ∧ k < n + fuel ∧
      numbered base ext k ∉ used ∧ (∀ i, n ≤ i → i < k → numbered base ext i ∈ used) ∧ candidate = numbered base ext k
  | 0, n => by
    refine iff_of_false (fun h => by cases h) ?_
    rintro ⟨k, h₁, h₂, -⟩
    omega
  | fuel + 1, n => by
    unfold firstNumbered
    by_cases h : numbered base ext n ∈ used
    · rw [if_pos h, firstNumbered_some]
      constructor
      · rintro ⟨k, h₁, h₂, hfree, hall, heq⟩
        refine ⟨k, by omega, by omega, hfree, fun i hi hik => ?_, heq⟩
        rcases Nat.eq_or_lt_of_le hi with rfl | hi
        · exact h
        · exact hall i hi hik
      · rintro ⟨k, h₁, h₂, hfree, hall, heq⟩
        have hne : n ≠ k := fun hk => hfree (hk ▸ h)
        exact ⟨k, by omega, by omega, hfree, fun i hi hik => hall i (by omega) hik, heq⟩
    · rw [if_neg h]
      constructor
      · intro heq
        exact ⟨n, Nat.le_refl n, by omega, h, fun i h₁ h₂ => absurd h₂ (Nat.not_lt.mpr h₁), (Option.some.inj heq).symm⟩
      · rintro ⟨k, h₁, h₂, hfree, hall, rfl⟩
        rcases Nat.eq_or_lt_of_le h₁ with rfl | h₁
        · rfl
        · exact absurd (hall n (Nat.le_refl n) h₁) h

/-- What `mangle_8_3` makes of a name: a name in upper case that was free, and is taken then; or the name itself,
    for want of a number. -/
inductive Mangled (used : List Str) (name : Str) : Str × List Str → Prop
  | given (short : Str) (free : short ∉ used) (fixed : upper short = short)
      (nameable : Nameable used name ↔ Valid83 short) : Mangled used name (short, short :: used)
  | kept (taken : shortName (baseOf name) (extOf name) ∈ used ∨ 8 < (baseOf name).length)
      (nameable : Nameable used name ↔ Valid83 name ∧ upper name ≠ name) : Mangled used name (name, used)

theorem mangled (used : List Str) (name : Str) : Mangled used name (mangle83 name used) := by
  have hext := extOf_length name
  have hdot := extOf_dot name
  unfold mangle83
  dsimp only
  rw [show upper (splitExt name).1 = baseOf name from rfl, show (upper (splitExt name).2).take 3 = extOf name from rfl]
  by_cases hshort : (baseOf name).length ≤ 8 ∧ shortName (baseOf name) (extOf name) ∉ used
  · rw [if_pos hshort]
    refine .given _ hshort.2 (upper_short name) ?_
    rw [Nameable, if_pos hshort, valid83_short_iff hext hdot]
  · rw [if_neg hshort]
    cases hfirst : firstNumbered used (baseOf name) (extOf name) 999 1 with
    | some candidate =>
      obtain ⟨n, h₁, h₂, hfree, hall, rfl⟩ := firstNumbered_some.mp hfirst
      refine .given _ hfree (upper_numbered name n) ?_
      have hvalid : Valid83 (numbered (baseOf name) (extOf name) n) ↔
          Shaped (numberedBase (baseOf name) n) (extOf name) := valid83_short_iff hext hdot
      rw [Nameable, if_neg hshort, hvalid]
      constructor
      · rintro (⟨k, hk₁, hk₂, hkfree, hkall, hshape⟩ | ⟨hnone, -⟩)
        · -- the first free number is one only
          rcases Nat.lt_trichotomy n k with hlt | rfl | hlt
          · exact absurd (hkall n h₁ hlt) hfree
          · exact hshape
          · exact absurd (hall k hk₁ hlt) hkfree
        · exact absurd (hnone n h₁ (by omega)) hfree
      · exact fun hshape => .inl ⟨n, h₁, by omega, hfree, hall, hshape⟩
    | none =>
      have hall := firstNumbered_none.mp hfirst
      refine .kept ?_ ?_
      · by_cases hlen : (baseOf name).length ≤ 8
        · exact .inl (not_not.mp fun hno => hshort ⟨hlen, hno⟩)
        · exact .inr (Nat.lt_of_not_le hlen)
      · rw [Nameable, if_neg hshort]
        constructor
        · rintro (⟨k, hk₁, hk₂, hkfree, -⟩ | ⟨-, hname⟩)
          · exact absurd (hall k hk₁ (by omega)) hkfree
          · exact hname
        · exact fun hname => .inr ⟨fun n h₁ h₂ => hall n h₁ (by omega), hname⟩

end Step

/-! ### Usual directories -/

theorem length_number {n : Nat} (h : n < 1000) :
    2 ≤ ('~' :: Nat.toDigits 10 n).length ∧ ('~' :: Nat.toDigits 10 n).length ≤ 4 := by
  have hpos := Nat.length_toDigits_pos (b := 10) (n := n)
  have hle := (Nat.length_toDigits_le_iff (b := 10) (n := n) (k := 3) (by decide) (by decide)).mpr h
  rw [List.length_cons]
  omega

theorem number_noDot (n : Nat) : '.' ∉ '~' :: Nat.toDigits 10 n := by
  intro hmem
  rcases List.mem_cons.mp hmem with heq | hmem
  · exact absurd heq (by decide)
  · exact absurd (Nat.isDigit_of_mem_toDigits (by decide) (by decide) hmem) (by decide)

theorem numbered_inj {base ext : Str} {n m : Nat} (h : numbered base ext n = numbered base ext m) : n = m := by
  have htilde : ∀ k : Nat, ∀ c ∈ Nat.toDigits 10 k, decide (c = '~') = false := fun k c hc => by
    have hdigit := Nat.isDigit_of_mem_toDigits (by decide) (by decide) hc
    refine decide_eq_false fun heq => ?_
    rw [heq] at hdigit
    exact absurd hdigit (by decide)
  have hbase : numberedBase base n = numberedBase base m := by
    by_cases hext : ext = []
    · subst hext
      exact h
    · have hn : ∀ k, numbered base ext k = numberedBase base k ++ '.' :: ext := fun _ => if_neg hext
      rw [hn, hn] at h
      exact List.append_cancel_right h
  have hlast := congrArg (splitLast (· = '~')) hbase
  unfold numberedBase at hlast
  rw [splitLast_mid (by decide) (htilde n), splitLast_mid (by decide) (htilde m)] at hlast
  have hdigits := congrArg (Nat.ofDigitChars 10 · 0) (Prod.mk.inj (Option.some.inj hlast)).2
  rwa [Nat.ofDigitChars_ten_toDigits, Nat.ofDigitChars_ten_toDigits] at hdigits

/-- Fewer names taken than there are numbers: one is free. -/
theorem exists_free {used : List Str} (base ext : Str) (h : used.length < 999) :
    ∃ n, 1 ≤ n ∧ n < 1000 ∧ numbered base ext n ∉ used := by
  by_contra hno
  have hsub : (List.range' 1 999).map (numbered base ext) ⊆ used := by
    intro s hs
    obtain ⟨n, hn, rfl⟩ := List.mem_map.mp hs
    have hrange := List.mem_range'_1.mp hn
    exact not_not.mp fun hfree => hno ⟨n, hrange.1, hrange.2, hfree⟩
  have hnodup : ((List.range' 1 999).map (numbered base ext)).Nodup :=
    List.Nodup.map (fun _ _ => numbered_inj) (List.nodup_range' 1)
  have hlen := (hnodup.subperm hsub).length_le
  rw [List.length_map, List.length_range'] at hlen
  omega

theorem nameable_of_plain {used : List Str} {name : Str} (hused : used.length < 999) (hbase : baseOf name ≠ [])
    (hdot : '.' ∉ baseOf name) : Nameable used name := by
  have hshaped : ∀ {base : Str}, 1 ≤ base.length → base.length ≤ 8 → '.' ∉ base → Shaped base (extOf name) := by
    intro base h₁ h₂ h₃
    unfold Shaped
    split
    · exact ⟨base, [], rfl, h₁, h₂, h₃, by decide, by decide⟩
    · exact ⟨h₁, h₂, h₃⟩
  by_cases hshort : (baseOf name).length ≤ 8 ∧ shortName (baseOf name) (extOf name) ∉ used
  · rw [Nameable, if_pos hshort]
    exact hshaped (List.length_pos_iff.mpr hbase) hshort.1 hdot
  · rw [Nameable, if_neg hshort]
    have hfree := exists_free (baseOf name) (extOf name) hused
    -- the first of the free numbers
    obtain ⟨h₁, h₂, hnot⟩ := Nat.find_spec hfree
    refine .inl ⟨Nat.find hfree, h₁, h₂, hnot, fun k hk₁ hk₂ => ?_, ?_⟩
    · exact not_not.mp fun hk => Nat.find_min hfree hk₂ ⟨hk₁, by omega, hk⟩
    · obtain ⟨hlow, hhigh⟩ := length_number h₂
      refine hshaped ?_ ?_ fun hmem => ?_
      · rw [numberedBase, List.length_append]
        omega
      · rw [numberedBase, List.length_append, List.length_take]
        omega
      · rcases List.mem_append.mp hmem with hmem | hmem
        · exact hdot (List.mem_of_mem_take hmem)
        · exact number_noDot _ hmem

/-- Up to 999 files whose names have no dot but the one before the extension, nor begin with it, get good
    short names. -/
theorem eachNameable_of_plain : ∀ {names used : List Str}, used.length + names.length ≤ 999 →
    (∀ name ∈ names, baseOf name ≠ [] ∧ '.' ∉ baseOf name) → EachNameable used names
  | [], _, _, _ => trivial
  | name :: names, used, hlen, hall => by
    obtain ⟨⟨hbase, hdot⟩, hrest⟩ := List.forall_mem_cons.mp hall
    rw [List.length_cons] at hlen
    have hlen' : (mangle83 name used).2.length ≤ used.length + 1 := by
      have hstep := mangled used name
      generalize mangle83 name used = r at hstep ⊢
      cases hstep with
      | given => exact Nat.le_refl _
      | kept => exact Nat.le_succ _
    exact ⟨nameable_of_plain (by omega) hbase hdot, eachNameable_of_plain (by omega) hrest⟩

/-! ### All names -/

/-- Every short name is in upper case and was free, or it is the host's name. -/
theorem mangleAll_fresh : ∀ (names used : List Str), ∀ e ∈ mangleAll names used,
    (upper e.mangled = e.mangled ∧ e.mangled ∉ used) ∨ e.mangled = e.hostName ∧ e.hostName ∈ names
  | [], _, e, he => absurd he List.not_mem_nil
  | name :: names, used, e, he => by
    have hstep := mangled used name
    rw [mangleAll] at he
    rcases List.mem_cons.mp he with rfl | he
    · generalize mangle83 name used = r at hstep
      cases hstep with
      | given short free fixed => exact .inl ⟨fixed, free⟩
      | kept => exact .inr ⟨rfl, List.mem_cons_self⟩
    · rcases mangleAll_fresh names _ e he with ⟨hup, hfree⟩ | ⟨heq, hmem⟩
      · refine .inl ⟨hup, fun hused => hfree ?_⟩
        generalize mangle83 name used = r at hstep
        cases hstep with
        | given => exact List.mem_cons_of_mem _ hused
        | kept => exact hused
      · exact .inr ⟨heq, List.mem_cons_of_mem _ hmem⟩

/-- The names that follow get distinct 8.3 names, none of them taken, exactly if each can in its turn. -/
theorem mangleAll_good_iff : ∀ {names used : List Str}, names.Nodup → (∀ s ∈ used, upper s = s) →
    (EachNameable used names ↔ ((mangleAll names used).map FindEntry.mangled).Nodup ∧
      ∀ e ∈ mangleAll names used, Valid83 e.mangled ∧ e.mangled ∉ used)
  | [], used, _, _ => iff_of_true trivial ⟨List.nodup_nil, fun e he => absurd he List.not_mem_nil⟩
  | name :: names, used, hnodup, hup => by
    obtain ⟨hnew, hnodup⟩ := List.nodup_cons.mp hnodup
    have hfresh := mangleAll_fresh names (mangle83 name used).2
    have hstep := mangled used name
    rw [EachNameable, mangleAll, List.map_cons, List.nodup_cons, List.forall_mem_cons]
    dsimp only
    generalize mangle83 name used = r at hstep hfresh ⊢
    cases hstep with
    | given short free fixed nameable =>
      have hup' : ∀ s ∈ short :: used, upper s = s := fun s hs => by
        rcases List.mem_cons.mp hs with rfl | hs
        · exact fixed
        · exact hup s hs
      dsimp only
      rw [nameable, mangleAll_good_iff hnodup hup']
      constructor
      · rintro ⟨hvalid, hall, hrest⟩
        refine ⟨⟨fun hmem => ?_, hall⟩, ⟨hvalid, free⟩, fun e he => ?_⟩
        · obtain ⟨e, he, heq⟩ := List.mem_map.mp hmem
          exact (hrest e he).2 (heq ▸ List.mem_cons_self)
        · exact ⟨(hrest e he).1, fun hused => (hrest e he).2 (List.mem_cons_of_mem _ hused)⟩
      · rintro ⟨⟨hmem, hall⟩, ⟨hvalid, -⟩, hrest⟩
        refine ⟨hvalid, hall, fun e he => ⟨(hrest e he).1, fun hused => ?_⟩⟩
        rcases List.mem_cons.mp hused with heq | hused
        · exact hmem (List.mem_map.mpr ⟨e, he, heq⟩)
        · exact (hrest e he).2 hused
    | kept taken nameable =>
      dsimp only
      rw [nameable, mangleAll_good_iff hnodup hup]
      constructor
      · rintro ⟨⟨hvalid, hsmall⟩, hall, hrest⟩
        refine ⟨⟨fun hmem => ?_, hall⟩, ⟨hvalid, fun hused => hsmall (hup name hused)⟩, hrest⟩
        obtain ⟨e, he, heq⟩ := List.mem_map.mp hmem
        rcases hfresh e he with ⟨hfix, -⟩ | ⟨hname, hin⟩
        · exact hsmall (heq ▸ hfix)
        · exact hnew (heq ▸ hname.symm ▸ hin)
      · rintro ⟨⟨-, hall⟩, ⟨hvalid, hfree⟩, hrest⟩
        refine ⟨⟨hvalid, fun hsame => hfree ?_⟩, hall, hrest⟩
        -- in upper case already, the name would be the short name that is taken
        obtain ⟨hlen, hshort⟩ := hvalid.short
        rw [hsame] at hshort
        exact hshort ▸ taken.resolve_right (Nat.not_lt.mpr hlen)

theorem sortedNames_nodup {names : List Str} (hnodup : names.Nodup) : (sortedNames names).Nodup :=
  (List.perm_insertionSort _ _).nodup_iff.mpr (hnodup.filter _)

/-- **Short names.**  The short names of a directory are pairwise distinct 8.3 names exactly if each name, in
    order and with the short names before it taken, has a base of the right shape and finds a free number
    where it needs one. -/
theorem shortNames_iff {names : List Str} (hnodup : names.Nodup) :
    ShortNamesGood names ↔ EachNameable [] (sortedNames names) := by
  rw [mangleAll_good_iff (sortedNames_nodup hnodup) fun s hs => absurd hs List.not_mem_nil]
  exact and_congr_right fun _ => ⟨fun h e he => ⟨h e he, List.not_mem_nil⟩, fun h e he => (h e he).1⟩

theorem shortNames_iff_collision :
    ShortNamesGood ["Read Me First.txt".toList, "read me first.txt".toList, "makefile".toList] :=
  (shortNames_iff (by decide +kernel)).mpr (eachNameable_of_plain (by decide +kernel) (by decide +kernel))

/-- A name that begins with its only dot leaves no base. -/
theorem shortNames_dotFile : ¬ ShortNamesGood [".bashrc".toList] := by
  rintro ⟨-, hvalid⟩
  have hmem : (⟨".bashrc".toList, shortName [] "BAS".toList⟩ : FindEntry) ∈ assigned [".bashrc".toList] := by
    decide +kernel
  have hshaped := (valid83_short_iff (by decide +kernel : "BAS".toList.length ≤ 3) (by decide +kernel)).mp (hvalid _ hmem)
  rw [Shaped, if_neg (by decide +kernel)] at hshaped
  exact absurd hshaped.1 (by decide)

end Dosiz.FoundNames
