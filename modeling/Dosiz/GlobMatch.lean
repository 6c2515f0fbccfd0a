/-
  Dosiz/GlobMatch.lean
  ====================
  **What a pattern matches** (`glob_match_part` of `bridge.cc`).

  The loop goes back to the last `*` only.  That is enough: an earlier `*` that took more would come to the last one
  no earlier in the name (`globFrom_iff`).  But the loop looks for equal characters first, so a `*` of the pattern that
  comes to stand at a `*` of the name is that one character and no star (`globMatchPart_exact`).
-/
import Dosiz.HostPath

namespace Dosiz.GlobMatch

open HostPath

/-- The name matches the pattern: `*` is any string, `left` being what stands behind it, `?` any character and every
    other character itself. -/
inductive Glob : Str → Str → Prop where
  | nil : Glob [] []
  | star {name left pat : Str} (hleft : left <:+ name) (h : Glob left pat) : Glob name ('*' :: pat)
  | any (c : Char) {name pat : Str} (h : Glob name pat) : Glob (c :: name) ('?' :: pat)
  | char {c : Char} {name pat : Str} (hs : c ≠ '*') (hq : c ≠ '?') (h : Glob name pat) : Glob (c :: name) (c :: pat)

/-- The name matches the pattern with every `*` of the pattern that begins at a `*` of the name standing for that one
    character. -/
inductive GlobFixed : Str → Str → Prop where
  | nil : GlobFixed [] []
  | star {name left pat : Str} (hfree : name.head? ≠ some '*') (hleft : left <:+ name) (h : GlobFixed left pat) :
      GlobFixed name ('*' :: pat)
  | fixed {name pat : Str} (h : GlobFixed name pat) : GlobFixed ('*' :: name) ('*' :: pat)
  | any (c : Char) {name pat : Str} (h : GlobFixed name pat) : GlobFixed (c :: name) ('?' :: pat)
  | char {c : Char} {name pat : Str} (hs : c ≠ '*') (hq : c ≠ '?') (h : GlobFixed name pat) :
      GlobFixed (c :: name) (c :: pat)

/-! ### One character of the pattern -/

section Inversion

variable {c : Char} {name pat rest : Str}

theorem GlobFixed.glob (h : GlobFixed name pat) : Glob name pat := by
  induction h with
  | nil => exact .nil
  | star _ hleft _ ih => exact .star hleft ih
  | fixed _ ih => exact .star (List.suffix_cons _ _) ih
  | any c _ ih => exact .any c ih
  | char hs hq _ ih => exact .char hs hq ih

theorem globFixed_any : GlobFixed (c :: name) ('?' :: rest) ↔ GlobFixed name rest := by
  refine ⟨fun h => ?_, .any c⟩
  cases h with
  | any _ h => exact h
  | char _ hq _ => exact absurd rfl hq

theorem globFixed_fixed : GlobFixed ('*' :: name) ('*' :: rest) ↔ GlobFixed name rest := by
  refine ⟨fun h => ?_, .fixed⟩
  cases h with
  | star hfree _ _ => exact absurd rfl hfree
  | fixed h => exact h
  | char hs _ _ => exact absurd rfl hs

theorem globFixed_char {q : Char} (hs : q ≠ '*') (hq : q ≠ '?') :
    GlobFixed (c :: name) (q :: rest) ↔ q = c ∧ GlobFixed name rest := by
  constructor
  · intro h
    cases h with
    | star _ _ _ => exact absurd rfl hs
    | fixed _ => exact absurd rfl hs
    | any _ _ => exact absurd rfl hq
    | char _ _ h => exact ⟨rfl, h⟩
  · rintro ⟨rfl, h⟩
    exact .char hs hq h

theorem globFixed_empty : ¬ GlobFixed (c :: name) [] := by
  intro h
  cases h

/-- A `*` of the pattern that does not stand at a `*` of the name. -/
theorem globFixed_star (hfree : name.head? ≠ some '*') :
    GlobFixed name ('*' :: rest) ↔ ∃ left, left <:+ name ∧ GlobFixed left rest := by
  constructor
  · intro h
    cases h with
    | star _ hleft h => exact ⟨_, hleft, h⟩
    | fixed _ => exact absurd rfl hfree
    | char hs _ _ => exact absurd rfl hs
  · rintro ⟨left, hleft, h⟩
    exact .star hfree hleft h

theorem globFixed_nil : GlobFixed [] pat ↔ pat.all (· = '*') = true := by
  induction pat with
  | nil => exact iff_of_true .nil rfl
  | cons q rest ih =>
    constructor
    · intro h
      cases h with
      | star _ hleft h =>
        obtain rfl := List.suffix_nil.mp hleft
        exact Bool.and_eq_true_iff.mpr ⟨rfl, ih.mp h⟩
    · intro h
      obtain ⟨hq, hrest⟩ := Bool.and_eq_true_iff.mp h
      obtain rfl : q = '*' := of_decide_eq_true hq
      exact .star (by decide) (List.suffix_refl []) (ih.mpr hrest)

/-- Behind a `*` of the pattern stands some rest of the name. -/
theorem globFixed_left (h : GlobFixed name ('*' :: rest)) : ∃ left, left <:+ name ∧ GlobFixed left rest := by
  cases h with
  | star _ hleft h => exact ⟨_, hleft, h⟩
  | fixed h => exact ⟨_, List.suffix_cons _ _, h⟩
  | char hs _ _ => exact absurd rfl hs

/-- A match that begins at or behind `c` comes, with the pattern's first character done, to a place behind `c`, if
    the loop takes `c` for that character. -/
theorem globFixed_advance {q : Char} {m : Str} (htake : q = '?' ∨ q = c) (hm : m <:+ c :: name)
    (h : GlobFixed m (q :: rest)) : ∃ m', m' <:+ name ∧ GlobFixed m' rest := by
  -- one character of `m` is behind `c` at least
  have htail : ∀ {d : Char} {m' : Str}, m = d :: m' → m' <:+ name := by
    rintro d m' rfl
    rcases List.suffix_cons_iff.mp hm with heq | hm
    · exact (List.cons.inj heq).2 ▸ List.suffix_refl m'
    · exact (List.suffix_cons d m').trans hm
  cases h with
  | any _ h => exact ⟨_, htail rfl, h⟩
  | char _ _ h => exact ⟨_, htail rfl, h⟩
  | fixed h => exact ⟨_, htail rfl, h⟩
  | @star _ left _ hfree hleft h =>
    have hc : c = '*' := (htake.resolve_left (by decide)).symm
    -- a true star is not at `c`, so it is behind it
    have hbehind : m <:+ name := by
      refine (List.suffix_cons_iff.mp hm).resolve_left fun heq => hfree ?_
      rw [heq, hc]
      rfl
    exact ⟨left, hleft.trans hbehind, h⟩

end Inversion

/-! ### The loop -/

/-- What a later try of the last star can still find. -/
def Later : Option (Str × Str) → Prop
  | some (pat, _ :: name) => ∃ m, m <:+ name ∧ GlobFixed m pat
  | _ => False

/-- Every later try of the last star comes to `pat` at a place in `name` or behind it. -/
def Ahead (star : Option (Str × Str)) (name pat : Str) : Prop := Later star → ∃ m, m <:+ name ∧ GlobFixed m pat

section Loop

variable {c : Char} {name pat rest : Str} {star : Option (Str × Str)}

/-- What a star can stand for: nothing, or at least one character. -/
theorem later_some : (∃ m, m <:+ name ∧ GlobFixed m pat) ↔ GlobFixed name pat ∨ Later (some (pat, name)) := by
  cases name with
  | nil =>
    constructor
    · rintro ⟨m, hm, h⟩
      exact .inl (List.suffix_nil.mp hm ▸ h)
    · rintro (h | h)
      · exact ⟨[], List.suffix_refl [], h⟩
      · exact h.elim
  | cons d name =>
    constructor
    · rintro ⟨m, hm, h⟩
      rcases List.suffix_cons_iff.mp hm with rfl | hm
      · exact .inl h
      · exact .inr ⟨m, hm, h⟩
    · rintro (h | ⟨m, hm, h⟩)
      · exact ⟨_, List.suffix_refl _, h⟩
      · exact ⟨m, hm.trans (List.suffix_cons d name), h⟩

theorem ahead_some : Ahead (some (pat, name)) name pat := fun h => later_some.mpr (.inr h)

theorem Ahead.advance {q : Char} (h : Ahead star (c :: name) (q :: rest)) (htake : q = '?' ∨ q = c) :
    Ahead star name rest := by
  intro hlater
  obtain ⟨m, hm, hmatch⟩ := h hlater
  exact globFixed_advance htake hm hmatch

/-- The character that the loop takes, in the relation. -/
theorem globFixed_take {q : Char} (htake : q = '?' ∨ q = c) :
    GlobFixed (c :: name) (q :: rest) ↔ GlobFixed name rest := by
  rcases htake with rfl | rfl
  · exact globFixed_any
  · by_cases hs : q = '*'
    · subst hs
      exact globFixed_fixed
    · by_cases hq : q = '?'
      · subst hq
        exact globFixed_any
      · exact (globFixed_char hs hq).trans (and_iff_right rfl)

/-- There is fuel for `tries` more tries of a star, in a pattern of `len` characters. -/
structure Fuelled (len tries fuel : Nat) (name pat : Str) (star : Option (Str × Str)) : Prop where
  fuel : tries * (len + 1) + pat.length < fuel
  name : name.length ≤ tries
  pat : pat.length ≤ len
  star : ∀ q ∈ star, q.1.length ≤ len ∧ q.2.length ≤ tries

section Fuel

variable {len tries fuel : Nat} {q : Char}

theorem Fuelled.advance (h : Fuelled len tries (fuel + 1) (c :: name) (q :: rest) star) :
    Fuelled len tries fuel name rest star where
  fuel := by
    have hfuel := h.fuel
    rw [List.length_cons] at hfuel
    omega
  name := Nat.le_of_succ_le h.name
  pat := Nat.le_of_succ_le h.pat
  star := h.star

theorem Fuelled.record (h : Fuelled len tries (fuel + 1) name (q :: rest) star) :
    Fuelled len tries fuel name rest (some (rest, name)) where
  fuel := by
    have hfuel := h.fuel
    rw [List.length_cons] at hfuel
    omega
  name := h.name
  pat := Nat.le_of_succ_le h.pat
  star := by
    rintro _ ⟨⟩
    exact ⟨Nat.le_of_succ_le h.pat, h.name⟩

/-- A star that has been tried once more. -/
theorem Fuelled.retry {p left : Str} (h : Fuelled len tries (fuel + 1) name pat (some (p, c :: left))) :
    Fuelled len (tries - 1) fuel left p (some (p, left)) := by
  obtain ⟨hp, hlast⟩ : p.length ≤ len ∧ left.length + 1 ≤ tries := h.star _ rfl
  obtain ⟨k, rfl⟩ : ∃ k, tries = k + 1 := ⟨tries - 1, by omega⟩
  have hfuel := h.fuel
  have hleft : left.length ≤ k := Nat.le_of_succ_le_succ hlast
  rw [Nat.add_mul, Nat.one_mul] at hfuel
  rw [Nat.add_sub_cancel]
  refine ⟨by omega, hleft, hp, ?_⟩
  rintro _ ⟨⟩
  exact ⟨hp, hleft⟩

end Fuel

/-- **The last star is enough.**  With fuel for every try the loop finds what the place it is at can match, or a later
    try of the last star. -/
theorem globFrom_iff {len : Nat} : ∀ {fuel tries : Nat} {name pat : Str} {star : Option (Str × Str)},
    Fuelled len tries fuel name pat star → Ahead star name pat →
      (globFrom fuel name pat star = true ↔ GlobFixed name pat ∨ Later star) := by
  intro fuel
  induction fuel with
  | zero => exact fun hfuel _ => absurd hfuel.fuel (Nat.not_lt_zero _)
  | succ fuel ih =>
    intro tries name pat star hfuel hahead
    rcases name with _ | ⟨c, name⟩
    · have hlater : Later star → GlobFixed [] pat := fun h => by
        obtain ⟨m, hm, hmatch⟩ := hahead h
        exact List.suffix_nil.mp hm ▸ hmatch
      rw [globFrom, ← globFixed_nil]
      exact ⟨Or.inl, fun h => h.elim id hlater⟩
    have hretry : ¬ GlobFixed (c :: name) pat →
        (globFrom.retry fuel star = true ↔ GlobFixed (c :: name) pat ∨ Later star) := by
      intro hno
      rw [or_iff_right hno]
      rcases star with _ | ⟨p, _ | ⟨d, left⟩⟩
      · exact iff_of_false (by simp [globFrom.retry]) id
      · exact iff_of_false (by simp [globFrom.retry]) id
      · rw [globFrom.retry, ih hfuel.retry ahead_some, ← later_some]
        rfl
    rcases pat with _ | ⟨q, rest⟩
    · rw [globFrom]
      exact hretry globFixed_empty
    · rw [globFrom]
      by_cases htake : q = '?' ∨ q = c
      · rw [if_pos htake, ih hfuel.advance (hahead.advance htake), globFixed_take htake]
      · rw [if_neg htake]
        by_cases hs : q = '*'
        · subst hs
          have hfree : (c :: name).head? ≠ some '*' := fun h => htake (.inr (Option.some.inj h).symm)
          -- what the star before could still find, this one finds
          have hlater : Later star → GlobFixed (c :: name) ('*' :: rest) := fun h => by
            obtain ⟨m, hm, hmatch⟩ := hahead h
            obtain ⟨left, hleft, hrest⟩ := globFixed_left hmatch
            exact .star hfree (hleft.trans hm) hrest
          rw [if_pos rfl, ih hfuel.record ahead_some, ← later_some, ← globFixed_star hfree]
          exact ⟨Or.inl, fun h => h.elim id hlater⟩
        · rw [if_neg hs]
          exact hretry fun h => htake (.inr ((globFixed_char hs fun hq => htake (.inl hq)).mp h).1)

/-- The loop matches as if a star at a `*` of the name were no star. -/
theorem globMatchPart_iff (name pat : Str) : globMatchPart name pat = true ↔ GlobFixed name pat := by
  have hfuel : Fuelled pat.length name.length ((name.length + 1) * (pat.length + 1) + 1) name pat none :=
    ⟨by rw [Nat.add_mul]; omega, le_rfl, le_rfl, fun _ h => by cases h⟩
  rw [globMatchPart, globFrom_iff hfuel fun h => h.elim]
  exact or_iff_left id

end Loop

/-! ### Names without a star -/

theorem Glob.fixed_of_no_star {name pat : Str} (h : Glob name pat) (hname : '*' ∉ name) : GlobFixed name pat := by
  induction h with
  | nil => exact .nil
  | star hleft _ ih =>
    have hfree := fun hs => hname (List.mem_of_mem_head? hs)
    exact .star hfree hleft (ih fun hs => hname (hleft.mem hs))
  | any c _ ih => exact .any c (ih fun hs => hname (List.mem_cons_of_mem c hs))
  | char hs hq _ ih => exact .char hs hq (ih fun hs => hname (List.mem_cons_of_mem _ hs))

/-- **The loop is the relation exactly where a match needs no star at a `*` of the name**, in particular on every name
    without a `*`. -/
theorem globMatchPart_exact (name pat : Str) :
    ((globMatchPart name pat = true ↔ Glob name pat) ↔ (Glob name pat → GlobFixed name pat)) ∧
    ('*' ∉ name → (globMatchPart name pat = true ↔ Glob name pat)) := by
  rw [globMatchPart_iff]
  refine ⟨⟨fun h => h.mpr, fun h => ⟨GlobFixed.glob, h⟩⟩, fun hname => ⟨GlobFixed.glob, fun h => ?_⟩⟩
  exact h.fixed_of_no_star hname

/-- The name `*a` and the pattern `*`. -/
theorem globMatchPart_star_at_star : ¬ ∀ name pat : Str, globMatchPart name pat = true ↔ Glob name pat := by
  intro h
  have hglob : Glob ['*', 'a'] ['*'] := .star ⟨['*', 'a'], List.append_nil _⟩ .nil
  have hfixed := (globMatchPart_iff _ _).mp ((h ['*', 'a'] ['*']).mpr hglob)
  exact globFixed_empty (globFixed_fixed.mp hfixed)

end Dosiz.GlobMatch
