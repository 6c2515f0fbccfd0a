/-
  Dosiz/CopyFlush.lean
  ====================
  **Copy-flush mirrors.**

  A pool of pages is seen through a few frames.  A frame slot is not a window on its
  page but a copy of it: loading a page first writes the slot's copy back to the page it
  was loaded from.  `Holds m j d` says what a page really contains — the copy of the
  slot it is loaded in, or else the pool's.  As long as no page is loaded twice
  (`Single`), loading and unloading move contents about and change none, writing to a
  slot changes the one page it is loaded from, and the pool copy of a page matters only
  while the page is loaded nowhere.
-/
import Mathlib.Data.List.Induction
import Mathlib.Logic.Function.Basic

namespace CopyFlush

/-- The slots' pages and copies, and the pool. -/
structure Mirror (Slot Page Data : Type*) where
  loaded : Slot → Option Page
  frame : Slot → Data
  pool : Page → Data

variable {Slot Page Data : Type*}
variable {m : Mirror Slot Page Data} {s : Slot} {j k : Page} {d e : Data}

/-- Page `j` is loaded in no slot. -/
def Absent (m : Mirror Slot Page Data) (j : Page) : Prop := ∀ s, m.loaded s ≠ some j

/-- No page is loaded in two slots. -/
def Single (m : Mirror Slot Page Data) : Prop :=
  ∀ s t j, m.loaded s = some j → m.loaded t = some j → s = t

/-- The contents of page `j`. -/
def Holds (m : Mirror Slot Page Data) (j : Page) (d : Data) : Prop :=
  (∃ s, m.loaded s = some j ∧ m.frame s = d) ∨ (Absent m j ∧ m.pool j = d)

theorem Holds.frame (h : m.loaded s = some j) : Holds m j (m.frame s) := Or.inl ⟨s, h, rfl⟩

theorem Holds.unique (hs : Single m) (h : Holds m j d) (h' : Holds m j e) : d = e := by
  rcases h with ⟨s, hl, rfl⟩ | ⟨ha, rfl⟩ <;> rcases h' with ⟨t, hl', rfl⟩ | ⟨ha', rfl⟩
  · rw [hs s t j hl hl']
  · exact absurd hl (ha' s)
  · exact absurd hl' (ha t)
  · rfl

/-- What a loaded page contains is what its slot shows. -/
theorem Holds.frame_eq (hs : Single m) (hl : m.loaded s = some j) (h : Holds m j d) :
    m.frame s = d :=
  (Holds.frame hl).unique hs h

/-- A page that is loaded as before holds what it held, as long as its copy and its pool page
    do. -/
theorem Holds.congr {m' : Mirror Slot Page Data} (hl : m'.loaded = m.loaded)
    (hf : ∀ s, m.loaded s = some j → m'.frame s = m.frame s) (hp : m'.pool j = m.pool j)
    (h : Holds m j d) : Holds m' j d := by
  rcases h with ⟨s, hs, rfl⟩ | ⟨ha, rfl⟩
  · exact Or.inl ⟨s, hl ▸ hs, hf s hs⟩
  · exact Or.inr ⟨by rw [Absent, hl]; exact ha, hp⟩

/-! ### The operations -/

/-- Write the slot's copy back. -/
def flush [DecidableEq Page] (m : Mirror Slot Page Data) (s : Slot) : Page → Data :=
  match m.loaded s with
  | none => m.pool
  | some j => Function.update m.pool j (m.frame s)

/-- Flush the slot and leave it without a page. -/
def unload [DecidableEq Slot] [DecidableEq Page] (m : Mirror Slot Page Data) (s : Slot) :
    Mirror Slot Page Data :=
  { m with pool := flush m s, loaded := Function.update m.loaded s none }

/-- Flush the slot and copy page `j` into it. -/
def load [DecidableEq Slot] [DecidableEq Page] (m : Mirror Slot Page Data) (s : Slot) (j : Page) :
    Mirror Slot Page Data where
  loaded := Function.update m.loaded s (some j)
  frame := Function.update m.frame s (flush m s j)
  pool := flush m s

/-- Write to the slot's copy. -/
def write [DecidableEq Slot] (m : Mirror Slot Page Data) (s : Slot) (d : Data) : Mirror Slot Page Data :=
  { m with frame := Function.update m.frame s d }

/-! ### What they keep -/

section Flush

variable [DecidableEq Page]

theorem flush_of_loaded (h : m.loaded s = some j) : flush m s j = m.frame s := by
  simp [flush, h]

theorem flush_of_ne (h : m.loaded s ≠ some j) : flush m s j = m.pool j := by
  unfold flush
  cases hl : m.loaded s with
  | none => rfl
  | some k => exact Function.update_of_ne (fun hk => h (by rw [hl, hk])) _ _

/-- Once slot `s` no longer counts, the flushed pool holds what the mirror held. -/
theorem flush_eq (hother : ∀ t, t ≠ s → m.loaded t ≠ some j) (h : Holds m j d) :
    flush m s j = d := by
  rcases h with ⟨t, hl, rfl⟩ | ⟨ha, rfl⟩
  · obtain rfl : t = s := by
      by_contra hne
      exact hother t hne hl
    exact flush_of_loaded hl
  · exact flush_of_ne (ha s)

end Flush

section Write

variable [DecidableEq Slot]

/-- A write through slot `s` is a write to its page. -/
theorem write_holds_self (h : m.loaded s = some j) : Holds (write m s d) j d :=
  Or.inl ⟨s, h, by simp [write]⟩

theorem write_holds_of_ne (h : m.loaded s ≠ some k) (hk : Holds m k e) :
    Holds (write m s d) k e := by
  rcases hk with ⟨t, hl, rfl⟩ | ⟨ha, rfl⟩
  · have hts : t ≠ s := by
      rintro rfl
      exact h hl
    exact Or.inl ⟨t, hl, by simp only [write, Function.update_of_ne hts]⟩
  · exact Or.inr ⟨ha, rfl⟩

end Write

section Newest

variable [DecidableEq Page]

/-- What the pool has of page `j` when the slots `ss` have been flushed, one after the other: the copy of the last of
    them that has the page, or the pool's own. -/
def newest (m : Mirror Slot Page Data) (ss : List Slot) (j : Page) : Data :=
  ss.foldl (fun d t => if m.loaded t = some j then m.frame t else d) (m.pool j)

theorem newest_append (ss : List Slot) (t : Slot) :
    newest m (ss ++ [t]) j = if m.loaded t = some j then m.frame t else newest m ss j := by
  rw [newest, List.foldl_append]
  rfl

/-- Slots that do not have the page do not matter. -/
theorem newest_filter {p : Slot → Bool} : ∀ {ss : List Slot}, (∀ t ∈ ss, m.loaded t = some j → p t = true) →
    newest m (ss.filter p) j = newest m ss j := by
  intro ss
  induction ss using List.reverseRecOn with
  | nil => exact fun _ => rfl
  | append_singleton ss t ih =>
    intro h
    have hss := ih fun u hu => h u (List.mem_append_left _ hu)
    have ht := h t (List.mem_append_right _ (List.mem_singleton_self t))
    rw [List.filter_append, newest_append]
    cases hp : p t with
    | true => rw [List.filter_cons_of_pos hp, List.filter_nil, newest_append, hss]
    | false =>
      have hno : m.loaded t ≠ some j := fun hl => Bool.false_ne_true (hp.symm.trans (ht hl))
      rw [List.filter_cons_of_neg (by rw [hp]; decide), List.filter_nil, List.append_nil, if_neg hno, hss]

end Newest

variable [DecidableEq Slot] [DecidableEq Page]

theorem unload_single (hs : Single m) : Single (unload m s) := by
  intro a b j ha hb
  simp only [unload] at ha hb
  by_cases has : a = s
  · simp [has] at ha
  · by_cases hbs : b = s
    · simp [hbs] at hb
    · rw [Function.update_of_ne has] at ha
      rw [Function.update_of_ne hbs] at hb
      exact hs a b j ha hb

theorem unload_holds (hs : Single m) (h : Holds m j d) : Holds (unload m s) j d := by
  by_cases hother : ∀ t, t ≠ s → m.loaded t ≠ some j
  · refine Or.inr ⟨fun t => ?_, flush_eq hother h⟩
    by_cases hts : t = s
    · simp [unload, hts]
    · simp only [unload, Function.update_of_ne hts]
      exact hother t hts
  · simp only [not_forall, ne_eq, not_not, exists_prop] at hother
    obtain ⟨t, hts, hl⟩ := hother
    refine Or.inl ⟨t, ?_, show m.frame t = d from h.frame_eq hs hl⟩
    simp only [unload, Function.update_of_ne hts, hl]

theorem load_single (hs : Single m) (hfree : ∀ t, t ≠ s → m.loaded t ≠ some j) :
    Single (load m s j) := by
  intro a b k ha hb
  simp only [load] at ha hb
  by_cases has : a = s <;> by_cases hbs : b = s
  · rw [has, hbs]
  · rw [has, Function.update_self] at ha
    rw [Function.update_of_ne hbs] at hb
    exact absurd (hb.trans ha.symm) (hfree b hbs)
  · rw [hbs, Function.update_self] at hb
    rw [Function.update_of_ne has] at ha
    exact absurd (ha.trans hb.symm) (hfree a has)
  · rw [Function.update_of_ne has] at ha
    rw [Function.update_of_ne hbs] at hb
    exact hs a b k ha hb

/-- Loading a page that no other slot has changes no page. -/
theorem load_holds (hs : Single m) (hfree : ∀ t, t ≠ s → m.loaded t ≠ some j)
    (h : Holds m k d) : Holds (load m s j) k d := by
  by_cases hkj : k = j
  · subst hkj
    exact Or.inl ⟨s, by simp [load], by simp [load, flush_eq hfree h]⟩
  · by_cases hother : ∀ t, t ≠ s → m.loaded t ≠ some k
    · refine Or.inr ⟨fun t => ?_, flush_eq hother h⟩
      by_cases hts : t = s
      · simp only [load, hts, Function.update_self, ne_eq, Option.some.injEq]
        exact Ne.symm hkj
      · simp only [load, Function.update_of_ne hts]
        exact hother t hts
    · simp only [not_forall, ne_eq, not_not, exists_prop] at hother
      obtain ⟨t, hts, hl⟩ := hother
      refine Or.inl ⟨t, ?_, ?_⟩
      · simp only [load, Function.update_of_ne hts, hl]
      · simp only [load, Function.update_of_ne hts]
        exact h.frame_eq hs hl

/-! ### Replaying a map -/

/-- Give slot `s` the page `o`, or leave it without one. -/
def put (m : Mirror Slot Page Data) (s : Slot) : Option Page → Mirror Slot Page Data
  | none => unload m s
  | some j => load m s j

/-- Give each slot of a list its page of `v`, one after the other. -/
def replay (v : Slot → Option Page) : List Slot → Mirror Slot Page Data → Mirror Slot Page Data
  | [], m => m
  | s :: ss, m => replay v ss (put m s (v s))

theorem put_loaded (o : Option Page) : (put m s o).loaded = Function.update m.loaded s o := by
  cases o <;> rfl

theorem put_pool (o : Option Page) : (put m s o).pool = flush m s := by
  cases o <;> rfl

theorem put_frame_of_ne {t : Slot} (o : Option Page) (h : t ≠ s) : (put m s o).frame t = m.frame t := by
  cases o with
  | none => rfl
  | some j => exact Function.update_of_ne h _ _

theorem put_loaded_of_ne {t : Slot} (o : Option Page) (h : t ≠ s) : (put m s o).loaded t = m.loaded t := by
  rw [put_loaded, Function.update_of_ne h]

variable {v : Slot → Option Page}

theorem replay_append : ∀ {xs ys : List Slot} {m : Mirror Slot Page Data},
    replay v (xs ++ ys) m = replay v ys (replay v xs m)
  | [], _, _ => rfl
  | _ :: _, _, _ => by rw [List.cons_append, replay, replay, replay_append]

/-- A slot that is not on the list stays as it is. -/
theorem replay_off {t : Slot} : ∀ {ss : List Slot} {m : Mirror Slot Page Data}, t ∉ ss →
    (replay v ss m).loaded t = m.loaded t ∧ (replay v ss m).frame t = m.frame t
  | [], _, _ => ⟨rfl, rfl⟩
  | s :: ss, m, ht => by
    obtain ⟨hts, hss⟩ := not_or.mp (List.mem_cons.not.mp ht)
    obtain ⟨hl, hf⟩ := replay_off (m := put m s (v s)) hss
    exact ⟨hl.trans (put_loaded_of_ne _ hts), hf.trans (put_frame_of_ne _ hts)⟩

theorem replay_loaded {t : Slot} : ∀ {ss : List Slot} {m : Mirror Slot Page Data}, ss.Nodup → t ∈ ss →
    (replay v ss m).loaded t = v t
  | s :: ss, m, hnd, ht => by
    obtain ⟨hs, hss⟩ := List.nodup_cons.mp hnd
    rcases List.mem_cons.mp ht with rfl | ht
    · rw [replay, (replay_off hs).1, put_loaded, Function.update_self]
    · rw [replay, replay_loaded hss ht]

/-- A replay leaves in the pool what flushing its slots leaves there. -/
theorem replay_pool : ∀ {ss : List Slot}, ss.Nodup → (replay v ss m).pool j = newest m ss j := by
  intro ss
  induction ss using List.reverseRecOn with
  | nil => exact fun _ => rfl
  | append_singleton ss t ih =>
    intro hnd
    obtain ⟨hss, -, hdis⟩ := List.nodup_append.mp hnd
    have ht : t ∉ ss := fun hin => hdis t hin t (List.mem_singleton_self t) rfl
    obtain ⟨hl, hf⟩ := replay_off (v := v) (m := m) ht
    rw [replay_append, replay, replay, put_pool, newest_append, ← ih hss, ← hl, ← hf]
    by_cases hown : (replay v ss m).loaded t = some j
    · rw [if_pos hown, flush_of_loaded hown]
    · rw [if_neg hown, flush_of_ne hown]

/-- **What a replayed slot shows**: what the flushes up to its own leave of its page in the pool. -/
theorem replay_shows {pre post : List Slot} (hnd : (pre ++ s :: post).Nodup) (hv : v s = some j) :
    (replay v (pre ++ s :: post) m).frame s = newest m (pre ++ [s]) j := by
  have hsplit : pre ++ s :: post = (pre ++ [s]) ++ post := List.append_cons pre s post
  rw [hsplit] at hnd ⊢
  obtain ⟨hpre, -, hdis⟩ := List.nodup_append.mp hnd
  have hpost : s ∉ post := fun hin => hdis s (List.mem_append_right _ (List.mem_singleton_self s)) s hin rfl
  rw [replay_append, (replay_off hpost).2, ← replay_pool hpre, replay_append, replay, replay, hv, put_pool]
  exact Function.update_self _ _ _

end CopyFlush
