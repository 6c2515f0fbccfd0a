/-
  Dosiz/ConfigFile.lean
  =====================
  **Configuration files** (`trim`, `parse_bool`, `expand_env_vars` and `load_config_file` of `config.cc`).

  A file is read line by line; a comment ends the line, and blanks around the key and the value do not count.  So
  however a list of settings is laid out, it is loaded as the list (`loadConfigFile_layout`), and a
  value is expanded by the grammar of `$NAME` and `${NAME}`, which takes every string in one way
  (`expandEnvVars_iff`).
-/
import Dosiz.HostPath

namespace Dosiz.ConfigFile

open HostPath

/-! ### Values -/

/-- `isspace` -/
def isSpace (c : Char) : Bool := c = ' ' || (9 ≤ c.toNat && c.toNat ≤ 13)

def parseBool (v : Str) : Bool :=
  v = "true".toList || v = "1".toList || v = "yes".toList || v = "on".toList

def digitsValue (s : Str) : Nat := s.foldl (fun n c => 10 * n + (c.toNat - 48)) 0

/-- `atoi`, of a number that an `int` can hold. -/
def atoi (s : Str) : Int :=
  match s.dropWhile isSpace with
  | '-' :: s => -(digitsValue (s.takeWhile Char.isDigit) : Int)
  | '+' :: s => digitsValue (s.takeWhile Char.isDigit)
  | s => digitsValue (s.takeWhile Char.isDigit)

/-- A character of `$NAME`. -/
def isNameChar (c : Char) : Bool := c.isAlphanum || c = '_'

/-- `expand_env_vars`; `env` is `getenv`. -/
def expandEnvVars (env : Str → Option Str) : Str → Str
  | [] => []
  | c :: s =>
    if c ≠ '$' then c :: expandEnvVars env s
    else
      match s with
      | '{' :: s =>
        (env (s.takeWhile (· ≠ '}'))).getD [] ++ expandEnvVars env (s.dropWhile (· ≠ '}')).tail
      | s => (env (s.takeWhile isNameChar)).getD [] ++ expandEnvVars env (s.dropWhile isNameChar)
termination_by s => s.length
decreasing_by
  · simp
  · have hdrop := (s.dropWhile_sublist (· ≠ '}')).length_le
    simp only [List.length_tail, List.length_cons]
    omega
  · have hdrop := (s.dropWhile_sublist isNameChar).length_le
    simp only [List.length_cons]
    omega

/-! ### Settings -/

structure DriveMount where
  letter : Char
  hostPath : Str
deriving DecidableEq

/-- A file mapping with the conversion of line ends. -/
structure ConfigMapping extends FileMapping where
  eolConvert : Bool
deriving DecidableEq

structure Config where
  program : Str
  args : List Str
  chdirPath : Str
  drives : List DriveMount
  defaultMode : FileMode
  defaultEolConvert : Bool
  fileMappings : List ConfigMapping
  printerPath : Str
  auxInPath : Str
  auxOutPath : Str
  machine : Str
  cputype : Str
  cpuCore : Str
  memsizeMb : Int
  headless : Bool
  verbose : Int
deriving DecidableEq

/-- The configuration before any file is read. -/
def newConfig : Config :=
  ⟨[], [], [], [], .auto, true, [], [], [], [], "svga_s3".toList, "auto".toList, "auto".toList, 16, true, 0⟩

/-- One character of the value of `args`: the arguments so far and the one that is being read. -/
def argStep (r : List Str × Str) (c : Char) : List Str × Str :=
  if isSpace c then (if r.2 ≠ [] then (r.1 ++ [r.2], []) else r) else (r.1, r.2 ++ [c])

def splitArgs (val : Str) : List Str :=
  let r := val.foldl argStep ([], [])
  if r.2 ≠ [] then r.1 ++ [r.2] else r.1

/-- `key` is `drive_` and a letter. -/
def driveLetter (key : Str) : Option Char :=
  match key with
  | ['d', 'r', 'i', 'v', 'e', '_', letter] => some letter.toUpper
  | _ => none

/-- A mapping line: a mode that is given also settles whether line ends are converted. -/
def configMapping (cfg : Config) (key val : Str) : ConfigMapping :=
  let m := fileMapping cfg.defaultMode key val
  let given := isModeWord val || (splitLast (· = ' ') val).any fun parts => isModeWord parts.2
  ⟨m, if given && m.mode = .binary then false else cfg.defaultEolConvert⟩

/-- The settings of `load_config_file`, key by key. -/
def applySetting (cfg : Config) (key val : Str) : Config :=
  if key = "program".toList then { cfg with program := val }
  else if key = "cd".toList ∨ key = "chdir".toList then { cfg with chdirPath := val }
  else if key = "default_mode".toList then { cfg with defaultMode := parseMode val }
  else if key = "eol_convert".toList then { cfg with defaultEolConvert := parseBool val }
  else if key = "verbose".toList then { cfg with verbose := atoi val }
  else if key = "printer".toList then { cfg with printerPath := val }
  else if key = "aux_input".toList then { cfg with auxInPath := val }
  else if key = "aux_output".toList then { cfg with auxOutPath := val }
  else if key = "machine".toList then { cfg with machine := val }
  else if key = "cputype".toList then { cfg with cputype := val }
  else if key = "core".toList then { cfg with cpuCore := val }
  else if key = "memsize".toList then { cfg with memsizeMb := atoi val }
  else if key = "headless".toList then { cfg with headless := parseBool val }
  else
    match driveLetter key with
    | some letter => { cfg with drives := cfg.drives ++ [⟨letter, val⟩] }
    | none =>
      if key = "args".toList then { cfg with args := cfg.args ++ splitArgs val }
      else { cfg with fileMappings := cfg.fileMappings ++ [configMapping cfg key val] }

/-! ### Lines -/

/-- The lines that `getline` gives. -/
def getlines : Str → List Str
  | [] => []
  | c :: s =>
    if c = '\n' then [] :: getlines s
    else
      match getlines s with
      | [] => [[c]]
      | line :: lines => (c :: line) :: lines

/-- What a line says; a line without `=` says nothing and is complained of. -/
inductive Said where
  | nothing
  | missing
  | setting (key val : Str)
deriving DecidableEq

def readLine (env : Str → Option Str) (line : Str) : Said :=
  let line := trim (line.takeWhile (· ≠ '#'))
  if line = [] then .nothing
  else if '=' ∈ line then
    .setting (trim (line.takeWhile (· ≠ '='))) (expandEnvVars env (trim (line.dropWhile (· ≠ '=')).tail))
  else .missing

/-- The configuration, the number of the last line and the numbers of the lines complained of. -/
structure Loading where
  cfg : Config
  lineno : Nat
  missing : List Nat
deriving DecidableEq

def Loading.line (env : Str → Option Str) (l : Loading) (line : Str) : Loading :=
  match readLine env line with
  | .nothing => ⟨l.cfg, l.lineno + 1, l.missing⟩
  | .missing => ⟨l.cfg, l.lineno + 1, l.missing ++ [l.lineno + 1]⟩
  | .setting key val => ⟨applySetting l.cfg key val, l.lineno + 1, l.missing⟩

/-- `load_config_file` of a file that can be opened. -/
def loadConfigFile (env : Str → Option Str) (file : Str) (cfg : Config) : Loading :=
  (getlines file).foldl (Loading.line env) ⟨cfg, 0, []⟩

/-! ### Blanks -/

/-- Without the blanks in front. -/
def ltrim (s : Str) : Str := s.dropWhile isBlank

/-- Without the blanks behind. -/
def rtrim (s : Str) : Str := (s.reverse.dropWhile isBlank).reverse

theorem trim_eq (s : Str) : trim s = rtrim (ltrim s) := rfl

/-- Blanks only. -/
def Blank (s : Str) : Prop := ∀ c ∈ s, isBlank c = true

instance (s : Str) : Decidable (Blank s) := List.decidableBAll (fun c => isBlank c = true) s

theorem ltrim_ltrim (s : Str) : ltrim (ltrim s) = ltrim s := by
  induction s with
  | nil => rfl
  | cons c s ih =>
    simp only [ltrim, List.dropWhile_cons]
    split
    · exact ih
    · rename_i hc
      rw [List.dropWhile_cons_of_neg hc]

theorem ltrim_blank_append {b : Str} (hb : Blank b) (s : Str) : ltrim (b ++ s) = ltrim s := by
  rw [ltrim, List.dropWhile_append, List.dropWhile_eq_nil_iff.mpr hb]
  rfl

theorem rtrim_append_blank {b : Str} (hb : Blank b) (s : Str) : rtrim (s ++ b) = rtrim s := by
  rw [rtrim, List.reverse_append]
  exact congrArg List.reverse (ltrim_blank_append (fun c hc => hb c (List.mem_reverse.mp hc)) s.reverse)

/-- Blanks behind a blank. -/
theorem rtrim_cons_blank {c : Char} (hc : isBlank c = true) (s : Str) :
    rtrim (c :: s) = if rtrim s = [] then [] else c :: rtrim s := by
  simp only [rtrim, List.reverse_cons, List.dropWhile_append, List.reverse_eq_nil_iff]
  by_cases h : s.reverse.dropWhile isBlank = []
  · simp [h, hc]
  · simp [h]

/-- Blanks behind any other character. -/
theorem rtrim_cons_char {c : Char} (hc : isBlank c = false) (s : Str) : rtrim (c :: s) = c :: rtrim s := by
  simp only [rtrim, List.reverse_cons, List.dropWhile_append]
  by_cases h : s.reverse.dropWhile isBlank = []
  · simp [h, hc]
  · simp [h]

theorem rtrim_append_cons (x y : Str) {c : Char} (hc : isBlank c = false) :
    rtrim (x ++ c :: y) = x ++ c :: rtrim y := by
  induction x with
  | nil => exact rtrim_cons_char hc y
  | cons a x ih =>
    rw [List.cons_append]
    cases ha : isBlank a with
    | true =>
      rw [rtrim_cons_blank ha, ih, if_neg (by simp)]
      rfl
    | false =>
      rw [rtrim_cons_char ha, ih]
      rfl

theorem ltrim_append_cons (x y : Str) {c : Char} (hc : isBlank c = false) :
    ltrim (x ++ c :: y) = ltrim x ++ c :: y := by
  rw [ltrim, List.dropWhile_append]
  split
  · rename_i h
    rw [List.dropWhile_cons_of_neg (by simp [hc]), ltrim, List.isEmpty_iff.mp h]
    rfl
  · rfl

theorem trim_ltrim (s : Str) : trim (ltrim s) = trim s := by
  rw [trim_eq, ltrim_ltrim]
  rfl

theorem rtrim_rtrim (s : Str) : rtrim (rtrim s) = rtrim s := by
  have h := ltrim_ltrim s.reverse
  rw [rtrim, rtrim, List.reverse_reverse]
  exact congrArg List.reverse h

theorem trim_rtrim (s : Str) : trim (rtrim s) = trim s := by
  induction s with
  | nil => rfl
  | cons c s ih =>
    cases hc : isBlank c with
    | true =>
      have hskip : ∀ t : Str, trim (c :: t) = trim t := fun t => by
        rw [trim_eq, ltrim, List.dropWhile_cons_of_pos hc]
        rfl
      rw [rtrim_cons_blank hc, hskip, ← ih]
      split_ifs with h
      · rw [h]
      · exact hskip (rtrim s)
    | false =>
      have hkeep : ∀ t : Str, trim (c :: t) = c :: rtrim t := fun t => by
        rw [trim_eq, ltrim, List.dropWhile_cons_of_neg (by simp [hc])]
        exact rtrim_cons_char hc t
      rw [rtrim_cons_char hc, hkeep, hkeep, rtrim_rtrim]

/-- Blanks around what has none come off. -/
theorem trim_pad {a b s : Str} (ha : Blank a) (hb : Blank b) (hs : trim s = s) : trim (a ++ s ++ b) = s := by
  rw [List.append_assoc, trim_eq, ltrim_blank_append ha]
  have hpad : trim (s ++ b) = trim s := by
    rw [← trim_rtrim, rtrim_append_blank hb, trim_rtrim]
  exact hpad.trans hs

/-- The two sides of a `=` in a line without the blanks around it. -/
theorem trim_sides (x y : Str) : trim (x ++ '=' :: y) = ltrim x ++ '=' :: rtrim y := by
  rw [trim_eq, ltrim_append_cons x y rfl, rtrim_append_cons _ _ rfl]

/-! ### The layout of a line -/

/-- The blanks of a setting and the comment behind it. -/
structure Layout where
  indent : Str
  beforeEq : Str
  afterEq : Str
  trailing : Str
  comment : Option Str
deriving DecidableEq

structure LayoutOk (l : Layout) : Prop where
  indent : Blank l.indent ∧ '\n' ∉ l.indent
  beforeEq : Blank l.beforeEq ∧ '\n' ∉ l.beforeEq
  afterEq : Blank l.afterEq ∧ '\n' ∉ l.afterEq
  trailing : Blank l.trailing ∧ '\n' ∉ l.trailing
  comment : ∀ c ∈ l.comment, '\n' ∉ c

def commentText (comment : Option Str) : Str := comment.elim [] ('#' :: ·)

/-- The line `key = val` in a layout. -/
def renderLine (l : Layout) (key val : Str) : Str :=
  l.indent ++ key ++ l.beforeEq ++ '=' :: (l.afterEq ++ val ++ l.trailing) ++ commentText l.comment

/-- A key and a value that a line can hold. -/
structure Writable (key val : Str) : Prop where
  keyTrim : trim key = key
  keyEq : '=' ∉ key
  keyHash : '#' ∉ key
  keyLine : '\n' ∉ key
  valTrim : trim val = val
  valHash : '#' ∉ val
  valLine : '\n' ∉ val

theorem not_mem_of_blank {c : Char} {b : Str} (hb : Blank b) (hc : isBlank c = false) : c ∉ b := by
  intro h
  rw [hb c h] at hc
  cases hc

theorem takeWhile_self {c : Char} {x : Str} (hx : c ∉ x) : x.takeWhile (· ≠ c) = x :=
  List.takeWhile_eq_self_iff.mpr fun _ ha => decide_eq_true fun h => hx (h ▸ ha)

theorem dropWhile_self {c : Char} {x : Str} (hx : c ∉ x) : x.dropWhile (· ≠ c) = [] :=
  List.dropWhile_eq_nil_iff.mpr fun _ ha => decide_eq_true fun h => hx (h ▸ ha)

theorem takeWhile_stop {c : Char} {x : Str} (hx : c ∉ x) (y : Str) : (x ++ c :: y).takeWhile (· ≠ c) = x := by
  rw [List.takeWhile_append, takeWhile_self hx]
  simp

theorem dropWhile_stop {c : Char} {x : Str} (hx : c ∉ x) (y : Str) : (x ++ c :: y).dropWhile (· ≠ c) = c :: y := by
  rw [List.dropWhile_append, dropWhile_self hx]
  simp

/-- A comment comes off. -/
theorem takeWhile_comment {x : Str} (hx : '#' ∉ x) (comment : Option Str) :
    (x ++ commentText comment).takeWhile (· ≠ '#') = x := by
  cases comment with
  | none => exact (congrArg _ (List.append_nil x)).trans (takeWhile_self hx)
  | some c => exact takeWhile_stop hx c

theorem readLine_render (env : Str → Option Str) {l : Layout} {key val : Str} (hl : LayoutOk l)
    (h : Writable key val) : readLine env (renderLine l key val) = .setting key (expandEnvVars env val) := by
  have hleft : '=' ∉ l.indent ++ key ++ l.beforeEq := by
    have h₁ := not_mem_of_blank hl.indent.1 (c := '=') rfl
    have h₂ := not_mem_of_blank hl.beforeEq.1 (c := '=') rfl
    simp [h₁, h₂, h.keyEq]
  have hhash : '#' ∉ l.indent ++ key ++ l.beforeEq ++ '=' :: (l.afterEq ++ val ++ l.trailing) := by
    have h₁ := not_mem_of_blank hl.indent.1 (c := '#') rfl
    have h₂ := not_mem_of_blank hl.beforeEq.1 (c := '#') rfl
    have h₃ := not_mem_of_blank hl.afterEq.1 (c := '#') rfl
    have h₄ := not_mem_of_blank hl.trailing.1 (c := '#') rfl
    simp [h₁, h₂, h₃, h₄, h.keyHash, h.valHash]
  have hltrim : '=' ∉ ltrim (l.indent ++ key ++ l.beforeEq) := fun hmem =>
    hleft ((List.dropWhile_sublist _).subset hmem)
  have hkey : trim (l.indent ++ key ++ l.beforeEq) = key := trim_pad hl.indent.1 hl.beforeEq.1 h.keyTrim
  have hval : trim (l.afterEq ++ val ++ l.trailing) = val := trim_pad hl.afterEq.1 hl.trailing.1 h.valTrim
  rw [readLine, renderLine, takeWhile_comment hhash, trim_sides]
  rw [if_neg (by simp), if_pos (by simp), takeWhile_stop hltrim, dropWhile_stop hltrim, List.tail_cons, trim_ltrim,
    trim_rtrim, hkey, hval]

/-! ### The layout of a file -/

/-- A line of a file: a setting in a layout, or blanks and a comment. -/
inductive Item where
  | setting (l : Layout) (key val : Str)
  | filler (blanks : Str) (comment : Option Str)
deriving DecidableEq

def Item.text : Item → Str
  | .setting l key val => renderLine l key val
  | .filler blanks comment => blanks ++ commentText comment

def ItemOk : Item → Prop
  | .setting l key val => LayoutOk l ∧ Writable key val
  | .filler blanks comment => (Blank blanks ∧ '\n' ∉ blanks) ∧ ∀ c ∈ comment, '\n' ∉ c

/-- The key and the value an item gives. -/
def Item.entry : Item → Option (Str × Str)
  | .setting _ key val => some (key, val)
  | .filler _ _ => none

def fileText (items : List Item) : Str := items.flatMap fun i => i.text ++ ['\n']

/-- The settings one after the other. -/
def applySettings (env : Str → Option Str) (cfg : Config) (settings : List (Str × Str)) : Config :=
  settings.foldl (fun cfg s => applySetting cfg s.1 (expandEnvVars env s.2)) cfg

theorem getlines_cons {line : Str} (h : '\n' ∉ line) (s : Str) : getlines (line ++ '\n' :: s) = line :: getlines s := by
  induction line with
  | nil => rw [List.nil_append, getlines, if_pos rfl]
  | cons c line ih =>
    rw [List.mem_cons, not_or] at h
    rw [List.cons_append, getlines, if_neg (Ne.symm h.1), ih h.2]

theorem commentText_line {comment : Option Str} (h : ∀ c ∈ comment, '\n' ∉ c) : '\n' ∉ commentText comment := by
  cases comment with
  | none => exact List.not_mem_nil
  | some c =>
    have hc := h c rfl
    simp [commentText, hc]

theorem item_line {i : Item} (h : ItemOk i) : '\n' ∉ i.text := by
  cases i with
  | setting l key val =>
    obtain ⟨hl, hw⟩ := h
    have hcomment := commentText_line hl.comment
    simp [Item.text, renderLine, hl.indent.2, hl.beforeEq.2, hl.afterEq.2, hl.trailing.2, hw.keyLine, hw.valLine,
      hcomment]
  | filler blanks comment =>
    have hcomment := commentText_line h.2
    simp [Item.text, h.1.2, hcomment]

theorem getlines_file {items : List Item} (h : ∀ i ∈ items, ItemOk i) :
    getlines (fileText items) = items.map Item.text := by
  induction items with
  | nil => rfl
  | cons i items ih =>
    rw [fileText, List.flatMap_cons, List.append_assoc, List.singleton_append,
      getlines_cons (item_line (h i List.mem_cons_self))]
    exact congrArg _ (ih fun j hj => h j (List.mem_cons_of_mem i hj))

theorem trim_blank {b : Str} (hb : Blank b) : trim b = [] := by
  rw [trim_eq, ltrim, List.dropWhile_eq_nil_iff.mpr hb]
  rfl

theorem readLine_item (env : Str → Option Str) {i : Item} (h : ItemOk i) :
    readLine env i.text = i.entry.elim .nothing fun s => .setting s.1 (expandEnvVars env s.2) := by
  cases i with
  | setting l key val => exact readLine_render env h.1 h.2
  | filler blanks comment =>
    rw [Item.text, readLine, takeWhile_comment (not_mem_of_blank h.1.1 rfl), trim_blank h.1.1, if_pos rfl]
    rfl

/-- The line of an item. -/
theorem line_item (env : Str → Option Str) (l : Loading) {i : Item} (h : ItemOk i) : l.line env i.text =
    ⟨i.entry.elim l.cfg fun s => applySetting l.cfg s.1 (expandEnvVars env s.2), l.lineno + 1, l.missing⟩ := by
  rw [Loading.line, readLine_item env h]
  cases i <;> rfl

theorem foldl_items (env : Str → Option Str) {items : List Item} (h : ∀ i ∈ items, ItemOk i) (l : Loading) :
    (items.map Item.text).foldl (Loading.line env) l =
      ⟨applySettings env l.cfg (items.filterMap Item.entry), l.lineno + items.length, l.missing⟩ := by
  induction items generalizing l with
  | nil => rfl
  | cons i items ih =>
    have hcount : l.lineno + 1 + items.length = l.lineno + (i :: items).length := by
      rw [List.length_cons]
      omega
    rw [List.map_cons, List.foldl_cons, line_item env l (h i List.mem_cons_self),
      ih fun j hj => h j (List.mem_cons_of_mem i hj), hcount]
    cases i <;> rfl

/-- **A file is loaded as the list of its settings.**  Whatever blanks stand around the keys and values, whatever
    comments and empty lines are added: the settings take effect in their order, and no line is complained
    of. -/
theorem loadConfigFile_layout (env : Str → Option Str) {items : List Item} (h : ∀ i ∈ items, ItemOk i) (cfg : Config) :
    loadConfigFile env (fileText items) cfg =
      ⟨applySettings env cfg (items.filterMap Item.entry), items.length, []⟩ := by
  rw [loadConfigFile, getlines_file h, foldl_items env h, Nat.zero_add]

/-- A setting with a comment behind it, with the line end of the other kind. -/
def sidecar : List Item :=
  [.setting ⟨[' '], ['\t'], [], ['\r'], some "the program".toList⟩ "program".toList "HELLO.EXE".toList,
    .filler [] (some "nothing else".toList)]

theorem loadConfigFile_layout_sidecar : (loadConfigFile (fun _ => none) (fileText sidecar) newConfig).cfg =
    applySettings (fun _ => none) newConfig [("program".toList, "HELLO.EXE".toList)] := by
  have hitems : ∀ i ∈ sidecar, ItemOk i := by
    simp only [sidecar, List.forall_mem_cons, ItemOk]
    exact ⟨⟨⟨by decide, by decide, by decide, by decide, by decide⟩,
      by decide, by decide, by decide, by decide, by decide, by decide, by decide⟩, by decide, by simp⟩
  exact congrArg Loading.cfg (loadConfigFile_layout (fun _ => none) hitems newConfig)

/-! ### Expansion -/

/-- The grammar of a value: characters that stand for themselves, `${NAME}`, which may lack its brace at the end of the
    value, and `$NAME` with as long a name as there is. -/
inductive Expands (env : Str → Option Str) : Str → Str → Prop where
  | nil : Expands env [] []
  | char {c : Char} {s out : Str} (hc : c ≠ '$') (rest : Expands env s out) : Expands env (c :: s) (c :: out)
  | braced {name s out : Str} (hname : '}' ∉ name) (rest : Expands env s out) :
      Expands env ('$' :: '{' :: (name ++ '}' :: s)) ((env name).getD [] ++ out)
  | unclosed {name : Str} (hname : '}' ∉ name) : Expands env ('$' :: '{' :: name) ((env name).getD [])
  | bare {name s out : Str} (hname : ∀ c ∈ name, isNameChar c = true) (hstop : ∀ c ∈ s.head?, isNameChar c = false)
      (hbrace : name = [] → s.head? ≠ some '{') (rest : Expands env s out) :
      Expands env ('$' :: (name ++ s)) ((env name).getD [] ++ out)

theorem takeWhile_name {name s : Str} (hname : ∀ c ∈ name, isNameChar c = true)
    (hstop : ∀ c ∈ s.head?, isNameChar c = false) :
    (name ++ s).takeWhile isNameChar = name ∧ (name ++ s).dropWhile isNameChar = s := by
  have htake : s.takeWhile isNameChar = [] ∧ s.dropWhile isNameChar = s := by
    cases s with
    | nil => exact ⟨rfl, rfl⟩
    | cons c s =>
      have hc := hstop c rfl
      simp [hc]
  rw [List.takeWhile_append, List.dropWhile_append, List.takeWhile_eq_self_iff.mpr hname,
    List.dropWhile_eq_nil_iff.mpr hname, htake.1, htake.2]
  simp

section Expand

variable {env : Str → Option Str}

theorem expand_char {c : Char} (hc : c ≠ '$') (s : Str) :
    expandEnvVars env (c :: s) = c :: expandEnvVars env s := by
  conv =>
    lhs
    unfold expandEnvVars
  rw [if_pos hc]

theorem expand_braced (s : Str) : expandEnvVars env ('$' :: '{' :: s) =
    (env (s.takeWhile (· ≠ '}'))).getD [] ++ expandEnvVars env (s.dropWhile (· ≠ '}')).tail := by
  rw [expandEnvVars, if_neg (by simp)]

theorem expand_bare {s : Str} (hs : s.head? ≠ some '{') : expandEnvVars env ('$' :: s) =
    (env (s.takeWhile isNameChar)).getD [] ++ expandEnvVars env (s.dropWhile isNameChar) := by
  rw [expandEnvVars, if_neg (by simp)]
  rintro s rfl
  exact hs rfl

theorem expandEnvVars_of_expands {s out : Str} (h : Expands env s out) : expandEnvVars env s = out := by
  induction h with
  | nil => rw [expandEnvVars]
  | char hc _ ih => rw [expand_char hc, ih]
  | braced hname _ ih => rw [expand_braced, takeWhile_stop hname, dropWhile_stop hname, List.tail_cons, ih]
  | unclosed hname =>
    rw [expand_braced, takeWhile_self hname, dropWhile_self hname, List.tail_nil, expandEnvVars, List.append_nil]
  | bare hname hstop hbrace _ ih =>
    rename_i name s out _
    have hopen : (name ++ s).head? ≠ some '{' := by
      cases name with
      | nil => exact hbrace rfl
      | cons c name =>
        rintro h
        obtain rfl : c = '{' := Option.some.inj h
        exact absurd (hname '{' List.mem_cons_self) (by decide)
    obtain ⟨htake, hdrop⟩ := takeWhile_name hname hstop
    rw [expand_bare hopen, htake, hdrop, ih]

/-- The name in braces, whether the brace is there or not. -/
theorem expands_braced {s : Str} (ih : ∀ t : Str, t.length < s.length → Expands env t (expandEnvVars env t)) :
    Expands env ('$' :: '{' :: s) (expandEnvVars env ('$' :: '{' :: s)) := by
  rw [expand_braced]
  by_cases hclose : '}' ∈ s
  · obtain ⟨name, rest, rfl, hname⟩ := List.eq_append_cons_of_mem hclose
    rw [takeWhile_stop hname, dropWhile_stop hname, List.tail_cons]
    exact .braced hname (ih rest (by simp; omega))
  · rw [takeWhile_self hclose, dropWhile_self hclose, List.tail_nil, expandEnvVars, List.append_nil]
    exact .unclosed hclose

/-- A name that ends by itself. -/
theorem expands_bare {s : Str} (hopen : s.head? ≠ some '{')
    (ih : ∀ t : Str, t.length ≤ s.length → Expands env t (expandEnvVars env t)) :
    Expands env ('$' :: s) (expandEnvVars env ('$' :: s)) := by
  have hsplit := List.takeWhile_append_dropWhile (p := isNameChar) (l := s)
  have hname : ∀ c ∈ s.takeWhile isNameChar, isNameChar c = true := fun c hc => List.mem_takeWhile_imp hc
  have hstop : ∀ c ∈ (s.dropWhile isNameChar).head?, isNameChar c = false := fun c hc => by
    have hhead := List.head?_dropWhile_not isNameChar s
    rw [Option.mem_def.mp hc] at hhead
    exact hhead
  have hbrace : s.takeWhile isNameChar = [] → (s.dropWhile isNameChar).head? ≠ some '{' := fun hnil => by
    rw [hnil, List.nil_append] at hsplit
    rw [hsplit]
    exact hopen
  have hbare := Expands.bare hname hstop hbrace (ih _ (s.dropWhile_sublist isNameChar).length_le)
  rw [hsplit] at hbare
  rw [expand_bare hopen]
  exact hbare

theorem expands_expandEnvVars (s : Str) : Expands env s (expandEnvVars env s) := by
  induction h : s.length using Nat.strong_induction_on generalizing s with
  | _ n ih =>
    subst h
    cases s with
    | nil =>
      rw [expandEnvVars]
      exact .nil
    | cons c s =>
      by_cases hc : c = '$'
      · subst hc
        by_cases hopen : s.head? = some '{'
        · cases s with
          | nil => cases hopen
          | cons b s =>
            obtain rfl : b = '{' := Option.some.inj hopen
            exact expands_braced fun t ht => ih t.length (by simp; omega) t rfl
        · exact expands_bare hopen fun t ht => ih t.length (by simp; omega) t rfl
      · rw [expand_char hc]
        exact .char hc (ih s.length (by simp) s rfl)

end Expand

/-- **Every value has one expansion**, the one the grammar gives. -/
theorem expandEnvVars_iff (env : Str → Option Str) (s out : Str) : expandEnvVars env s = out ↔ Expands env s out := by
  constructor
  · rintro rfl
    exact expands_expandEnvVars s
  · exact expandEnvVars_of_expands

end Dosiz.ConfigFile
