/-
  Dosiz/Quoting.lean
  ==================
  **Lists of words in one line, with quotes and escapes.**

  A line is split at the blanks that stand outside quotes; a quote opens or closes a quoted
  part and starts a word, an escape in front of a quote or another escape stands for that
  character.  `line` writes words with this in mind, but marks no word by quotes that has
  no blank in it: `split_line` says what comes back, the words that are not empty.
-/
import Mathlib.Data.List.Basic
import Mathlib.Tactic.SplitIfs

namespace Quoting

/-- The characters with a meaning of their own. -/
structure Lexis (α : Type) where
  blank : α → Bool
  quote : α
  escape : α
  quote_ne : quote ≠ escape
  blank_quote : blank quote = false
  blank_escape : blank escape = false

variable {α : Type} [DecidableEq α] (L : Lexis α)

/-! ### The splitter -/

/-- The words of a line, from inside a quoted part if `q`, in the word `w` if there is one. -/
def words (q : Bool) (w : Option (List α)) : List α → List (List α)
  | [] => w.toList
  | c :: cs =>
    if c = L.quote then words (!q) (some (w.getD [])) cs
    else if c = L.escape then
      match cs with
      | [] => [w.getD [] ++ [c]]
      | d :: ds =>
        if d = L.quote ∨ d = L.escape then words q (some (w.getD [] ++ [d])) ds
        else words q (some (w.getD [] ++ [c])) (d :: ds)
    else if L.blank c = true ∧ q = false then w.toList ++ words false none cs
    else words q (some (w.getD [] ++ [c])) cs

def split (s : List α) : List (List α) := words L false none s

/-! ### The writer -/

/-- A character, escaped where it has to be. -/
def escaped (c : α) : List α := if c = L.quote ∨ c = L.escape then [L.escape, c] else [c]

/-- A word, quoted if it has a blank in it. -/
def field (a : List α) : List α :=
  if a.any L.blank then [L.quote] ++ a.flatMap (escaped L) ++ [L.quote] else a.flatMap (escaped L)

/-- The words, each behind a separator. -/
def line (sep : α) (ws : List (List α)) : List α := ws.flatMap fun a => sep :: field L a

/-! ### Splitting what the writer wrote -/

variable {L}

theorem words_nil (q : Bool) (w : Option (List α)) : words L q w [] = w.toList := by
  rw [words]

/-- A character that is no escape. -/
theorem words_cons {c : α} (hc : c ≠ L.escape) (q : Bool) (w : Option (List α)) (s : List α) :
    words L q w (c :: s) =
      if c = L.quote then words L (!q) (some (w.getD [])) s
      else if L.blank c = true ∧ q = false then w.toList ++ words L false none s
      else words L q (some (w.getD [] ++ [c])) s := by
  rw [words.eq_def]
  simp only [if_neg hc]

theorem words_quote (q : Bool) (w : Option (List α)) (s : List α) :
    words L q w (L.quote :: s) = words L (!q) (some (w.getD [])) s := by
  rw [words_cons L.quote_ne, if_pos rfl]

theorem words_blank {c : α} (hc : L.blank c = true) (w : Option (List α)) (s : List α) :
    words L false w (c :: s) = w.toList ++ words L false none s := by
  have hq : c ≠ L.quote := fun h => by
    rw [h, L.blank_quote] at hc
    exact Bool.noConfusion hc
  have he : c ≠ L.escape := fun h => by
    rw [h, L.blank_escape] at hc
    exact Bool.noConfusion hc
  rw [words_cons he, if_neg hq, if_pos ⟨hc, rfl⟩]

theorem words_escaped {q : Bool} {c : α} (hc : q = true ∨ L.blank c = false) (w : Option (List α))
    (s : List α) : words L q w (escaped L c ++ s) = words L q (some (w.getD [] ++ [c])) s := by
  unfold escaped
  split_ifs with hspecial
  · have hne : L.escape ≠ L.quote := L.quote_ne.symm
    rw [List.cons_append, List.cons_append, List.nil_append, words, if_neg hne, if_pos rfl, if_pos hspecial]
  · rw [not_or] at hspecial
    rw [List.cons_append, List.nil_append, words_cons hspecial.2, if_neg hspecial.1, if_neg]
    rintro ⟨hb, rfl⟩
    rcases hc with h | h
    · exact Bool.noConfusion h
    · rw [h] at hb
      exact Bool.noConfusion hb

/-- Inside a word, its escaped characters are read back, up to the next blank that separates. -/
theorem words_chars {q : Bool} {a : List α} (ha : ∀ c ∈ a, q = true ∨ L.blank c = false) (s : List α) :
    ∀ v, words L q (some v) (a.flatMap (escaped L) ++ s) = words L q (some (v ++ a)) s := by
  induction a with
  | nil =>
    intro v
    rw [List.flatMap_nil, List.nil_append, List.append_nil]
  | cons c a ih =>
    intro v
    rw [List.flatMap_cons, List.append_assoc, words_escaped (ha c List.mem_cons_self), Option.getD_some,
      ih (fun d hd => ha d (List.mem_cons_of_mem c hd)), List.append_assoc, List.singleton_append]

/-- A word that is not empty is read back. -/
theorem words_field {a : List α} (ha : a ≠ []) (s : List α) :
    words L false none (field L a ++ s) = words L false (some a) s := by
  unfold field
  split_ifs with hb
  · -- between the quotes the blanks belong to the word
    rw [List.append_assoc, List.append_assoc, List.singleton_append, words_quote,
      Bool.not_false, words_chars (fun c _ => Or.inl rfl), List.singleton_append, words_quote]
    rfl
  · obtain ⟨c, a, rfl⟩ := List.exists_cons_of_ne_nil ha
    have hplain : ∀ d ∈ c :: a, false = true ∨ L.blank d = false := fun d hd => by
      rw [List.any_eq_true, not_exists] at hb
      exact Or.inr (Bool.eq_false_iff.mpr fun h => hb d ⟨hd, h⟩)
    rw [List.flatMap_cons, List.append_assoc, words_escaped (hplain c List.mem_cons_self),
      words_chars fun d hd => hplain d (List.mem_cons_of_mem c hd)]
    rfl

theorem field_nil : field L ([] : List α) = [] := rfl

/-- A word ends where the next one begins. -/
theorem words_line {sep : α} (hsep : L.blank sep = true) (w : Option (List α)) (ws : List (List α)) :
    words L false w (line L sep ws) = w.toList ++ words L false none (line L sep ws) := by
  cases ws with
  | nil =>
    rw [line, List.flatMap_nil, words_nil, words_nil]
    exact (List.append_nil _).symm
  | cons a ws =>
    rw [line, List.flatMap_cons, List.cons_append, words_blank hsep, words_blank hsep]
    rfl

/-- The words come back, but for the empty ones. -/
theorem split_line {sep : α} (hsep : L.blank sep = true) (ws : List (List α)) :
    split L (line L sep ws) = ws.filter (· ≠ []) := by
  induction ws with
  | nil => rfl
  | cons a ws ih =>
    have hcons : line L sep (a :: ws) = sep :: (field L a ++ line L sep ws) := rfl
    rw [split, hcons, words_blank hsep, Option.toList_none, List.nil_append]
    by_cases ha : a = []
    · rw [ha, field_nil, List.nil_append, List.filter_cons_of_neg (by simp)]
      exact ih
    · rw [words_field ha, words_line hsep, List.filter_cons_of_pos (by simpa using ha), ← ih]
      rfl

/-- All of them come back exactly if none is empty. -/
theorem split_line_iff {sep : α} (hsep : L.blank sep = true) (ws : List (List α)) :
    split L (line L sep ws) = ws ↔ [] ∉ ws := by
  rw [split_line hsep, List.filter_eq_self]
  constructor
  · intro h hmem
    simpa using h [] hmem
  · intro h a ha
    simpa using fun h' : a = [] => h (h' ▸ ha)

end Quoting
