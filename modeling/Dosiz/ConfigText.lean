/-
  Dosiz/ConfigText.lean
  =====================
  **The file of a configuration** (`load_config_file` of `config.cc`).

  What a configuration holds can be said in settings: one line a value, and for a file mapping the
  conversion of line ends ahead of it.  Where each value can stand on a line (`ConfigOk`), a file that
  says them is read back as the configuration (`loadConfigFile_configText`).
-/
import Mathlib.Data.List.Induction
import Mathlib.Data.Nat.Digits.Defs
import Dosiz.ConfigFile

namespace Dosiz.ConfigText

open HostPath ConfigFile

/-! ### What a file can hold -/

/-- A value that stands on a line as it is. -/
structure Plain (v : Str) : Prop where
  trim : HostPath.trim v = v
  hash : '#' ∉ v
  line : '\n' ∉ v
  dollar : '$' ∉ v

instance (v : Str) : Decidable (Plain v) :=
  decidable_of_iff (trim v = v ∧ '#' ∉ v ∧ '\n' ∉ v ∧ '$' ∉ v)
    ⟨fun h => ⟨h.1, h.2.1, h.2.2.1, h.2.2.2⟩, fun h => ⟨h.trim, h.hash, h.line, h.dollar⟩⟩

/-- One of the arguments: `args` is split at spaces. -/
structure ArgOk (a : Str) : Prop where
  ne : a ≠ []
  space : ∀ c ∈ a, isSpace c = false
  hash : '#' ∉ a
  dollar : '$' ∉ a

/-- A key that is none of the settings' is the pattern of a file mapping. -/
def IsPattern (key : Str) : Prop :=
  key ∉ ["program", "cd", "chdir", "default_mode", "eol_convert", "verbose", "printer", "aux_input", "aux_output",
      "machine", "cputype", "core", "memsize", "headless", "args"].map String.toList ∧
    driveLetter key = none

structure MappingOk (m : ConfigMapping) : Prop where
  pattern : IsPattern m.pattern
  trim : HostPath.trim m.pattern = m.pattern
  eq : '=' ∉ m.pattern
  hash : '#' ∉ m.pattern
  line : '\n' ∉ m.pattern
  path : Plain m.hostPath
  binary : m.mode = .binary → m.eolConvert = false

structure DriveOk (d : DriveMount) : Prop where
  letter : d.letter.toUpper = d.letter
  key : d.letter ∉ ['=', '#', '\n', ' ', '\t', '\r']
  path : Plain d.hostPath

/-- The numbers are those of an `int`. -/
def IsInt (n : Int) : Prop := -2147483648 ≤ n ∧ n < 2147483648

structure ConfigOk (c : Config) : Prop where
  program : Plain c.program
  chdirPath : Plain c.chdirPath
  printerPath : Plain c.printerPath
  auxInPath : Plain c.auxInPath
  auxOutPath : Plain c.auxOutPath
  machine : Plain c.machine
  cputype : Plain c.cputype
  cpuCore : Plain c.cpuCore
  memsizeMb : IsInt c.memsizeMb
  verbose : IsInt c.verbose
  args : ∀ a ∈ c.args, ArgOk a
  drives : ∀ d ∈ c.drives, DriveOk d
  fileMappings : ∀ m ∈ c.fileMappings, MappingOk m

/-! ### What it says -/

def natText (n : Nat) : Str := (Nat.digits 10 n).reverse.map fun d => Char.ofNat (48 + d)

def intText (n : Int) : Str := if n < 0 then '-' :: natText n.natAbs else natText n.natAbs

def boolText (b : Bool) : Str := if b then "true".toList else "false".toList

def modeText : FileMode → Str
  | .auto => "auto".toList
  | .text => "text".toList
  | .binary => "binary".toList

/-- The arguments with a space between them. -/
def joinArgs : List Str → Str
  | [] => []
  | [a] => a
  | a :: b :: args => a ++ ' ' :: joinArgs (b :: args)

/-- The path of a mapping and its mode, or the mode alone. -/
def mappingText (m : ConfigMapping) : Str :=
  if m.hostPath = [] then modeText m.mode else m.hostPath ++ ' ' :: modeText m.mode

def scalarSettings (c : Config) : List (Str × Str) :=
  [("program".toList, c.program), ("cd".toList, c.chdirPath), ("printer".toList, c.printerPath),
    ("aux_input".toList, c.auxInPath), ("aux_output".toList, c.auxOutPath), ("machine".toList, c.machine),
    ("cputype".toList, c.cputype), ("core".toList, c.cpuCore), ("memsize".toList, intText c.memsizeMb),
    ("headless".toList, boolText c.headless), ("verbose".toList, intText c.verbose),
    ("args".toList, joinArgs c.args)]

def driveSetting (d : DriveMount) : Str × Str := ("drive_".toList ++ [d.letter], d.hostPath)

def mappingSettings (m : ConfigMapping) : List (Str × Str) :=
  [("eol_convert".toList, boolText m.eolConvert), (m.pattern, mappingText m)]

def defaultSettings (c : Config) : List (Str × Str) :=
  [("default_mode".toList, modeText c.defaultMode), ("eol_convert".toList, boolText c.defaultEolConvert)]

/-- The settings of a configuration; the defaults come last, after the mappings they do not belong to. -/
def settings (c : Config) : List (Str × Str) :=
  scalarSettings c ++ c.drives.map driveSetting ++ c.fileMappings.flatMap mappingSettings ++ defaultSettings c

/-- One setting a line. -/
def plainItem (s : Str × Str) : Item := .setting ⟨[], [' '], [' '], [], none⟩ s.1 s.2

/-- A file that says what the configuration holds. -/
def configText (c : Config) : Str := fileText ((settings c).map plainItem)

/-! ### Values that are read back -/

theorem expandEnvVars_plain (env : Str → Option Str) {v : Str} (h : '$' ∉ v) : expandEnvVars env v = v := by
  induction v with
  | nil => rw [expandEnvVars]
  | cons c v ih =>
    rw [List.mem_cons, not_or] at h
    rw [expand_char (Ne.symm h.1), ih h.2]

theorem parseBool_boolText (b : Bool) : parseBool (boolText b) = b := by cases b <;> rfl

theorem parseMode_modeText (m : FileMode) : parseMode (modeText m) = m := by cases m <;> rfl

theorem digitChar : ∀ d < 10, (Char.ofNat (48 + d)).isDigit = true ∧ (Char.ofNat (48 + d)).toNat = 48 + d ∧
    isSpace (Char.ofNat (48 + d)) = false := by
  decide

theorem digitsValue_reverse (ds : List Nat) (h : ∀ d ∈ ds, d < 10) :
    digitsValue (ds.reverse.map fun d => Char.ofNat (48 + d)) = Nat.ofDigits 10 ds := by
  induction ds with
  | nil => rfl
  | cons d ds ih =>
    have hd := (digitChar d (h d List.mem_cons_self)).2.1
    have hrest := ih fun e he => h e (List.mem_cons_of_mem d he)
    rw [digitsValue] at hrest ⊢
    rw [List.reverse_cons, List.map_append, List.foldl_append, hrest, Nat.ofDigits_cons]
    simp only [List.map_cons, List.map_nil, List.foldl_cons, List.foldl_nil, hd]
    omega

theorem natText_digits (n : Nat) : ∀ c ∈ natText n, c.isDigit = true := by
  intro c hc
  obtain ⟨d, hd, rfl⟩ := List.mem_map.mp hc
  exact (digitChar d (Nat.digits_lt_base (by decide) (List.mem_reverse.mp hd))).1

theorem digitsValue_natText (n : Nat) : digitsValue (natText n) = n :=
  (digitsValue_reverse _ fun _ hd => Nat.digits_lt_base (by decide) hd).trans (Nat.ofDigits_digits 10 n)

theorem not_space_of_digit {c : Char} (h : c.isDigit = true) : isSpace c = false ∧ c ≠ '-' ∧ c ≠ '+' := by
  have hrange : 48 ≤ c.toNat ∧ c.toNat ≤ 57 := by
    simpa [Char.isDigit, UInt32.le_iff_toNat_le] using h
  refine ⟨?_, ?_, ?_⟩
  · have hne : c ≠ ' ' := by
      rintro rfl
      exact absurd hrange (by decide)
    simp only [isSpace, hne, decide_false, Bool.false_or, Bool.and_eq_false_iff, decide_eq_false_iff_not]
    omega
  · rintro rfl
    exact absurd hrange (by decide)
  · rintro rfl
    exact absurd hrange (by decide)

theorem atoi_digits {s : Str} (h : ∀ c ∈ s, c.isDigit = true) : atoi s = digitsValue s := by
  have htake : s.takeWhile Char.isDigit = s := List.takeWhile_eq_self_iff.mpr h
  cases s with
  | nil => rfl
  | cons c s =>
    obtain ⟨hspace, hminus, hplus⟩ := not_space_of_digit (h c List.mem_cons_self)
    rw [atoi, List.dropWhile_cons_of_neg (by simp [hspace])]
    split
    · rename_i heq
      exact absurd (List.cons.inj heq).1 hminus
    · rename_i heq
      exact absurd (List.cons.inj heq).1 hplus
    · rw [htake]

theorem atoi_intText (n : Int) : atoi (intText n) = n := by
  rw [intText]
  split_ifs with h
  · have htake : (natText n.natAbs).takeWhile Char.isDigit = natText n.natAbs :=
      List.takeWhile_eq_self_iff.mpr (natText_digits _)
    have hneg : atoi ('-' :: natText n.natAbs) = -(digitsValue ((natText n.natAbs).takeWhile Char.isDigit) : Int) := rfl
    rw [hneg, htake, digitsValue_natText]
    omega
  · rw [atoi_digits (natText_digits _), digitsValue_natText]
    omega

/-- The loop of `splitArgs` over one argument. -/
theorem argStep_word (out : List Str) (tok : Str) {a : Str} (h : ∀ c ∈ a, isSpace c = false) :
    a.foldl argStep (out, tok) = (out, tok ++ a) := by
  induction a generalizing tok with
  | nil => rw [List.foldl_nil, List.append_nil]
  | cons c a ih =>
    rw [List.foldl_cons, argStep, h c List.mem_cons_self, if_neg Bool.false_ne_true,
      ih _ fun d hd => h d (List.mem_cons_of_mem c hd), List.append_assoc]
    rfl

theorem argStep_join {args : List Str} (h : ∀ a ∈ args, ArgOk a) (out : List Str) :
    let r := (joinArgs args).foldl argStep (out, [])
    (if r.2 ≠ [] then r.1 ++ [r.2] else r.1) = out ++ args := by
  induction args generalizing out with
  | nil => simp [joinArgs]
  | cons a args ih =>
    have ha := h a List.mem_cons_self
    cases args with
    | nil =>
      rw [joinArgs, argStep_word out [] ha.space]
      exact if_pos ha.ne
    | cons b args =>
      have hspace : argStep (out, [] ++ a) ' ' = (out ++ [a], []) := by
        rw [List.nil_append, argStep, if_pos (by decide), if_pos ha.ne]
      have hrest := ih (fun d hd => h d (List.mem_cons_of_mem a hd)) (out ++ [a])
      rw [joinArgs, List.foldl_append, List.foldl_cons, argStep_word out [] ha.space, hspace]
      rw [List.append_assoc] at hrest
      exact hrest

theorem splitArgs_joinArgs {args : List Str} (h : ∀ a ∈ args, ArgOk a) : splitArgs (joinArgs args) = args :=
  argStep_join h []

/-! ### Values that stand on a line -/

theorem length_rtrim_le (s : Str) : (rtrim s).length ≤ s.length := by
  rw [rtrim, List.length_reverse]
  exact (List.dropWhile_sublist _).length_le.trans_eq List.length_reverse

/-- What has no blanks at its ends. -/
theorem trim_self_iff {s : Str} :
    trim s = s ↔ (∀ c ∈ s.head?, isBlank c = false) ∧ ∀ c ∈ s.getLast?, isBlank c = false := by
  constructor
  · intro h
    have hl : ltrim s = s := by
      refine (List.dropWhile_sublist _).eq_of_length_le ?_
      have := length_rtrim_le (ltrim s)
      rw [← trim_eq, h] at this
      exact this
    have hr : rtrim s = s := by
      rw [trim_eq, hl] at h
      exact h
    constructor
    · intro c hc
      have hhead := List.head?_dropWhile_not isBlank s
      rw [show s.dropWhile isBlank = s from hl, Option.mem_def.mp hc] at hhead
      exact hhead
    · intro c hc
      have hrev : s.reverse.dropWhile isBlank = s.reverse := by
        rw [← List.reverse_inj, List.reverse_reverse]
        exact hr
      have hhead := List.head?_dropWhile_not isBlank s.reverse
      rw [hrev, List.head?_reverse, Option.mem_def.mp hc] at hhead
      exact hhead
  · rintro ⟨hhead, hlast⟩
    have hl : ltrim s = s := by
      cases s with
      | nil => rfl
      | cons c s => exact List.dropWhile_cons_of_neg (by simp [hhead c rfl])
    rw [trim_eq, hl]
    cases s using List.reverseRecOn with
    | nil => rfl
    | append_singleton s c =>
      have hc := hlast c (by simp)
      exact rtrim_append_cons s [] hc

/-- A value that needs no expansion, behind a key that has none of the special characters. -/
theorem writable_plain {key val : Str} (hkey : trim key = key ∧ '=' ∉ key ∧ '#' ∉ key ∧ '\n' ∉ key)
    (hval : Plain val) : Writable key val :=
  ⟨hkey.1, hkey.2.1, hkey.2.2.1, hkey.2.2.2, hval.trim, hval.hash, hval.line⟩

theorem plain_of_chars {v : Str} (h : ∀ c ∈ v, isBlank c = false ∧ c ≠ '#' ∧ c ≠ '$') : Plain v := by
  refine ⟨trim_self_iff.mpr ⟨fun c hc => ?_, fun c hc => ?_⟩, fun hmem => (h _ hmem).2.1 rfl, fun hmem => ?_,
    fun hmem => (h _ hmem).2.2 rfl⟩
  · exact (h c (List.mem_of_mem_head? hc)).1
  · exact (h c (List.mem_of_mem_getLast? hc)).1
  · exact absurd (h _ hmem).1 (by decide)

theorem isBlank_of_isSpace {c : Char} (h : isSpace c = false) : isBlank c = false := by
  have hne : ∀ d : Char, isSpace d = true → c ≠ d := by
    rintro d hd rfl
    rw [h] at hd
    cases hd
  have h₁ := hne ' ' (by decide)
  have h₂ := hne '\t' (by decide)
  have h₃ := hne '\r' (by decide)
  have h₄ := hne '\n' (by decide)
  simp [isBlank, h₁, h₂, h₃, h₄]

theorem plain_arg {a : Str} (h : ArgOk a) : Plain a :=
  plain_of_chars fun c hc => ⟨isBlank_of_isSpace (h.space c hc), fun he => h.hash (he ▸ hc), fun he => h.dollar (he ▸ hc)⟩

/-- Two values with a space between them. -/
theorem plain_append {a b : Str} (ha : Plain a) (hb : Plain b) (hane : a ≠ []) (hbne : b ≠ []) :
    Plain (a ++ ' ' :: b) := by
  have hhead := (trim_self_iff.mp ha.trim).1
  have hlast := (trim_self_iff.mp hb.trim).2
  have hfirst : (a ++ ' ' :: b).head? = a.head? := by
    cases a with
    | nil => exact absurd rfl hane
    | cons x a => rfl
  have hend : (a ++ ' ' :: b).getLast? = b.getLast? := by
    cases b with
    | nil => exact absurd rfl hbne
    | cons x b =>
      rw [List.getLast?_append, List.getLast?_cons_cons]
      cases hy : (x :: b).getLast? with
      | none => simp at hy
      | some y => rfl
  refine ⟨trim_self_iff.mpr ⟨fun c hc => hhead c (hfirst ▸ hc), fun c hc => hlast c (hend ▸ hc)⟩, ?_, ?_, ?_⟩
  · simp [ha.hash, hb.hash]
  · simp [ha.line, hb.line]
  · simp [ha.dollar, hb.dollar]

theorem plain_nil : Plain [] := ⟨rfl, List.not_mem_nil, List.not_mem_nil, List.not_mem_nil⟩

theorem joinArgs_ne {args : List Str} (hne : args ≠ []) (h : ∀ a ∈ args, ArgOk a) : joinArgs args ≠ [] := by
  cases args with
  | nil => exact absurd rfl hne
  | cons a args =>
    cases args with
    | nil => exact (h a List.mem_cons_self).ne
    | cons b args => simp [joinArgs]

theorem plain_joinArgs {args : List Str} (h : ∀ a ∈ args, ArgOk a) : Plain (joinArgs args) := by
  induction args with
  | nil => exact plain_nil
  | cons a args ih =>
    have ha := h a List.mem_cons_self
    cases args with
    | nil => exact plain_arg ha
    | cons b args =>
      have hrest : ∀ d ∈ b :: args, ArgOk d := fun d hd => h d (List.mem_cons_of_mem a hd)
      exact plain_append (plain_arg ha) (ih hrest) ha.ne (joinArgs_ne (List.cons_ne_nil _ _) hrest)

theorem plain_modeText (m : FileMode) : Plain (modeText m) ∧ modeText m ≠ [] ∧ ' ' ∉ modeText m := by
  cases m <;> exact ⟨⟨by decide, by decide, by decide, by decide⟩, by decide, by decide⟩

theorem plain_boolText (b : Bool) : Plain (boolText b) := by
  cases b <;> exact ⟨by decide, by decide, by decide, by decide⟩

theorem plain_mappingText {m : ConfigMapping} (h : Plain m.hostPath) : Plain (mappingText m) := by
  obtain ⟨hplain, hne, -⟩ := plain_modeText m.mode
  rw [mappingText]
  split_ifs with hpath
  · exact hplain
  · exact plain_append h hplain hpath hne

theorem plain_intText (n : Int) : Plain (intText n) := by
  have hdigit : ∀ c ∈ natText n.natAbs, isBlank c = false ∧ c ≠ '#' ∧ c ≠ '$' := by
    intro c hc
    have hd := natText_digits _ c hc
    refine ⟨isBlank_of_isSpace (not_space_of_digit hd).1, ?_, ?_⟩ <;>
    · rintro rfl
      exact absurd hd (by decide)
  refine plain_of_chars fun c hc => ?_
  rw [intText] at hc
  split_ifs at hc
  · rcases List.mem_cons.mp hc with rfl | hc
    · decide
    · exact hdigit c hc
  · exact hdigit c hc

/-! ### Settings that take effect -/

theorem splitLast_stop {x y : Str} (hy : ' ' ∉ y) : splitLast (· = ' ') (x ++ ' ' :: y) = some (x, y) := by
  have hrev : ' ' ∉ y.reverse := fun h => hy (List.mem_reverse.mp h)
  have hp : (fun c : Char => !decide (c = ' ')) = fun c => decide (c ≠ ' ') := by
    funext c
    simp
  rw [splitLast, hp, List.reverse_append, List.reverse_cons, List.append_assoc, List.singleton_append,
    takeWhile_stop hrev, dropWhile_stop hrev]
  simp

/-- A mapping that is read back. -/
theorem configMapping_text {cfg : Config} {m : ConfigMapping} (h : MappingOk m)
    (heol : cfg.defaultEolConvert = m.eolConvert) : configMapping cfg m.pattern (mappingText m) = m := by
  obtain ⟨-, -, hspace⟩ := plain_modeText m.mode
  obtain ⟨⟨pattern, hostPath, mode⟩, eol⟩ := m
  have hmode : isModeWord (modeText mode) = true := by cases mode <;> rfl
  have hbinary : (if mode = .binary then false else cfg.defaultEolConvert) = eol := by
    split_ifs with hb
    · exact (h.binary hb).symm
    · exact heol
  by_cases hpath : hostPath = []
  · subst hpath
    have htext : mappingText ⟨⟨pattern, [], mode⟩, eol⟩ = modeText mode := if_pos rfl
    have hmapping : fileMapping cfg.defaultMode pattern (modeText mode) = ⟨pattern, [], mode⟩ := by
      rw [fileMapping, if_pos hmode, parseMode_modeText]
    rw [htext, configMapping, hmapping, hmode]
    simpa using hbinary
  · have htext : mappingText ⟨⟨pattern, hostPath, mode⟩, eol⟩ = hostPath ++ ' ' :: modeText mode := if_neg hpath
    have hsplit : splitLast (· = ' ') (hostPath ++ ' ' :: modeText mode) = some (hostPath, modeText mode) :=
      splitLast_stop hspace
    have hword : isModeWord (hostPath ++ ' ' :: modeText mode) = false := by
      have hmem : ' ' ∈ hostPath ++ ' ' :: modeText mode := by simp
      generalize hostPath ++ ' ' :: modeText mode = w at hmem
      rw [isModeWord, Bool.or_eq_false_iff, Bool.or_eq_false_iff]
      refine ⟨⟨decide_eq_false ?_, decide_eq_false ?_⟩, decide_eq_false ?_⟩ <;>
      · rintro rfl
        exact absurd hmem (by decide)
    have hmapping : fileMapping cfg.defaultMode pattern (hostPath ++ ' ' :: modeText mode) =
        ⟨pattern, hostPath, mode⟩ := by
      simp only [fileMapping, hword, Bool.false_eq_true, if_false, hsplit, hmode, if_true, parseMode_modeText]
      rw [h.path.trim]
    rw [htext, configMapping, hmapping, hsplit, hword]
    simpa [hmode] using hbinary

/-! ### The settings of a configuration -/

section Settings

variable (env : Str → Option Str) (cfg : Config)

theorem applySettings_append (xs ys : List (Str × Str)) :
    applySettings env cfg (xs ++ ys) = applySettings env (applySettings env cfg xs) ys := List.foldl_append

theorem applySettings_cons (key val : Str) (xs : List (Str × Str)) (h : '$' ∉ val) :
    applySettings env cfg ((key, val) :: xs) = applySettings env (applySetting cfg key val) xs := by
  rw [applySettings, List.foldl_cons, expandEnvVars_plain env h]
  rfl

theorem applySettings_scalars {c : Config} (h : ConfigOk c) :
    applySettings env cfg (scalarSettings c) =
      { c with
        args := cfg.args ++ c.args, drives := cfg.drives, defaultMode := cfg.defaultMode
        defaultEolConvert := cfg.defaultEolConvert, fileMappings := cfg.fileMappings } := by
  rw [scalarSettings, applySettings_cons env _ _ _ _ h.program.dollar, applySettings_cons env _ _ _ _ h.chdirPath.dollar,
    applySettings_cons env _ _ _ _ h.printerPath.dollar, applySettings_cons env _ _ _ _ h.auxInPath.dollar,
    applySettings_cons env _ _ _ _ h.auxOutPath.dollar, applySettings_cons env _ _ _ _ h.machine.dollar,
    applySettings_cons env _ _ _ _ h.cputype.dollar, applySettings_cons env _ _ _ _ h.cpuCore.dollar,
    applySettings_cons env _ _ _ _ (plain_intText _).dollar, applySettings_cons env _ _ _ _ (plain_boolText _).dollar,
    applySettings_cons env _ _ _ _ (plain_intText _).dollar,
    applySettings_cons env _ _ _ _ (plain_joinArgs h.args).dollar]
  -- key by key; what is left is to read the numbers, the boolean and the arguments back
  refine Eq.trans (b := { c with
    memsizeMb := atoi (intText c.memsizeMb), headless := parseBool (boolText c.headless)
    verbose := atoi (intText c.verbose), args := cfg.args ++ splitArgs (joinArgs c.args)
    drives := cfg.drives, defaultMode := cfg.defaultMode, defaultEolConvert := cfg.defaultEolConvert
    fileMappings := cfg.fileMappings }) rfl ?_
  rw [atoi_intText, atoi_intText, parseBool_boolText, splitArgs_joinArgs h.args]

theorem applySettings_drives {drives : List DriveMount} (h : ∀ d ∈ drives, DriveOk d) :
    applySettings env cfg (drives.map driveSetting) = { cfg with drives := cfg.drives ++ drives } := by
  induction drives generalizing cfg with
  | nil => simp [applySettings]
  | cons d drives ih =>
    obtain ⟨hletter, -, hpath⟩ := h d List.mem_cons_self
    rw [List.map_cons, driveSetting, applySettings_cons env cfg _ _ _ hpath.dollar,
      ih _ fun e he => h e (List.mem_cons_of_mem d he)]
    have happly : applySetting cfg ("drive_".toList ++ [d.letter]) d.hostPath =
        { cfg with drives := cfg.drives ++ [d] } := by
      simp [applySetting, driveLetter, hletter]
    rw [happly]
    simp

theorem applySetting_pattern {key : Str} (h : IsPattern key) (val : Str) : applySetting cfg key val =
    { cfg with fileMappings := cfg.fileMappings ++ [configMapping cfg key val] } := by
  obtain ⟨hkey, hdrive⟩ := h
  simp only [List.map_cons, List.map_nil, List.mem_cons, not_or] at hkey
  obtain ⟨h₁, h₂, h₃, h₄, h₅, h₆, h₇, h₈, h₉, h₁₀, h₁₁, h₁₂, h₁₃, h₁₄, h₁₅, -⟩ := hkey
  rw [applySetting, if_neg h₁, if_neg (not_or.mpr ⟨h₂, h₃⟩), if_neg h₄, if_neg h₅, if_neg h₆, if_neg h₇, if_neg h₈,
    if_neg h₉, if_neg h₁₀, if_neg h₁₁, if_neg h₁₂, if_neg h₁₃, if_neg h₁₄, hdrive]
  exact if_neg h₁₅

/-- The mappings, each behind its conversion of line ends; the last of those stays as the default. -/
theorem applySettings_mappings {ms : List ConfigMapping} (h : ∀ m ∈ ms, MappingOk m) :
    ∃ b, applySettings env cfg (ms.flatMap mappingSettings) =
      { cfg with fileMappings := cfg.fileMappings ++ ms, defaultEolConvert := b } := by
  induction ms generalizing cfg with
  | nil => exact ⟨cfg.defaultEolConvert, by simp [applySettings]⟩
  | cons m ms ih =>
    have hm := h m List.mem_cons_self
    have heol : applySetting cfg "eol_convert".toList (boolText m.eolConvert) =
        { cfg with defaultEolConvert := m.eolConvert } :=
      congrArg (fun b => { cfg with defaultEolConvert := b }) (parseBool_boolText m.eolConvert)
    obtain ⟨b, hb⟩ := ih (applySetting { cfg with defaultEolConvert := m.eolConvert } m.pattern (mappingText m))
      fun e he => h e (List.mem_cons_of_mem m he)
    refine ⟨b, ?_⟩
    rw [List.flatMap_cons, applySettings_append, mappingSettings, applySettings_cons env _ _ _ _ (plain_boolText _).dollar,
      applySettings_cons env _ _ _ _ (plain_mappingText hm.path).dollar, heol]
    refine Eq.trans hb ?_
    rw [applySetting_pattern _ hm.pattern, configMapping_text hm rfl]
    simp

/-- The settings of a configuration over one that is there: only what is a list adds up. -/
theorem applySettings_settings {c : Config} (h : ConfigOk c) : applySettings env cfg (settings c) =
    { c with
      args := cfg.args ++ c.args, drives := cfg.drives ++ c.drives
      fileMappings := cfg.fileMappings ++ c.fileMappings } := by
  rw [settings, applySettings_append, applySettings_append, applySettings_append, applySettings_scalars env cfg h,
    applySettings_drives env _ h.drives]
  obtain ⟨b, hb⟩ := applySettings_mappings env
    { c with
      args := cfg.args ++ c.args, drives := cfg.drives ++ c.drives, defaultMode := cfg.defaultMode
      defaultEolConvert := cfg.defaultEolConvert, fileMappings := cfg.fileMappings } h.fileMappings
  rw [hb, defaultSettings, applySettings_cons env _ _ _ _ (plain_modeText _).1.dollar,
    applySettings_cons env _ _ _ _ (plain_boolText _).dollar]
  refine Eq.trans (b := { c with
    args := cfg.args ++ c.args, drives := cfg.drives ++ c.drives, fileMappings := cfg.fileMappings ++ c.fileMappings
    defaultMode := parseMode (modeText c.defaultMode)
    defaultEolConvert := parseBool (boolText c.defaultEolConvert) }) rfl ?_
  rw [parseMode_modeText, parseBool_boolText]

end Settings

/-! ### The file of a configuration -/

section File

variable {c : Config}

theorem writable_scalars (h : ConfigOk c) : ∀ s ∈ scalarSettings c, Writable s.1 s.2 := by
  simp only [scalarSettings, List.forall_mem_cons]
  exact ⟨writable_plain (by decide) h.program, writable_plain (by decide) h.chdirPath,
    writable_plain (by decide) h.printerPath, writable_plain (by decide) h.auxInPath,
    writable_plain (by decide) h.auxOutPath, writable_plain (by decide) h.machine, writable_plain (by decide) h.cputype,
    writable_plain (by decide) h.cpuCore, writable_plain (by decide) (plain_intText _),
    writable_plain (by decide) (plain_boolText _), writable_plain (by decide) (plain_intText _),
    writable_plain (by decide) (plain_joinArgs h.args), fun _ hs => absurd hs List.not_mem_nil⟩

theorem writable_drive {d : DriveMount} (h : DriveOk d) : Writable (driveSetting d).1 (driveSetting d).2 := by
  have hkey := h.key
  simp only [List.mem_cons, not_or, List.not_mem_nil, not_false_eq_true, and_true] at hkey
  obtain ⟨h₁, h₂, h₃, h₄, h₅, h₆⟩ := hkey
  refine writable_plain ⟨trim_self_iff.mpr ⟨fun c hc => ?_, fun c hc => ?_⟩, ?_, ?_, ?_⟩ h.path
  · obtain rfl : 'd' = c := Option.some.inj hc
    rfl
  · obtain rfl : d.letter = c := by simpa [driveSetting] using hc
    simp [isBlank, h₃, h₄, h₅, h₆]
  · simp [driveSetting, Ne.symm h₁]
  · simp [driveSetting, Ne.symm h₂]
  · simp [driveSetting, Ne.symm h₃]

/-- Every setting can stand on a line. -/
theorem settings_writable (h : ConfigOk c) : ∀ s ∈ settings c, Writable s.1 s.2 := by
  intro s hs
  simp only [settings, List.mem_append, List.mem_map, List.mem_flatMap, or_assoc] at hs
  rcases hs with hs | ⟨d, hd, rfl⟩ | ⟨m, hm, hs⟩ | hs
  · exact writable_scalars h s hs
  · exact writable_drive (h.drives d hd)
  · have hok := h.fileMappings m hm
    simp only [mappingSettings, List.mem_cons, List.not_mem_nil, or_false] at hs
    rcases hs with rfl | rfl
    · exact writable_plain (by dsimp only; decide) (plain_boolText _)
    · exact writable_plain ⟨hok.trim, hok.eq, hok.hash, hok.line⟩ (plain_mappingText hok.path)
  · simp only [defaultSettings, List.mem_cons, List.not_mem_nil, or_false] at hs
    rcases hs with rfl | rfl
    · exact writable_plain (by dsimp only; decide) (plain_modeText _).1
    · exact writable_plain (by dsimp only; decide) (plain_boolText _)

theorem plainItem_ok {s : Str × Str} (h : Writable s.1 s.2) : ItemOk (plainItem s) := by
  refine ⟨⟨?_, ?_, ?_, ?_, fun c hc => absurd hc (Option.not_mem_none c)⟩, h⟩ <;> exact ⟨by decide, by decide⟩

theorem entry_plainItem (xs : List (Str × Str)) : (xs.map plainItem).filterMap Item.entry = xs := by
  rw [List.filterMap_map]
  exact List.filterMap_some

/-- The file over a configuration that is there. -/
theorem loadConfigFile_over (env : Str → Option Str) (cfg : Config) (h : ConfigOk c) :
    loadConfigFile env (configText c) cfg =
      ⟨{ c with
          args := cfg.args ++ c.args, drives := cfg.drives ++ c.drives
          fileMappings := cfg.fileMappings ++ c.fileMappings }, (settings c).length, []⟩ := by
  have hitems : ∀ i ∈ (settings c).map plainItem, ItemOk i := by
    intro i hi
    obtain ⟨s, hs, rfl⟩ := List.mem_map.mp hi
    exact plainItem_ok (settings_writable h s hs)
  rw [loadConfigFile, configText, getlines_file hitems, foldl_items env hitems, entry_plainItem,
    applySettings_settings env cfg h, List.length_map, Nat.zero_add]

/-- **A configuration that can be said has a file** that is read back as it, whatever the environment. -/
theorem loadConfigFile_configText (env : Str → Option Str) (h : ConfigOk c) :
    loadConfigFile env (configText c) newConfig = ⟨c, (settings c).length, []⟩ :=
  loadConfigFile_over env newConfig h

end File

/-- Text files, and a binary file with a path of its own. -/
def projectMappings : List ConfigMapping :=
  [⟨⟨"*.C".toList, [], .text⟩, true⟩, ⟨⟨"OUT.EXE".toList, "/tmp/my out".toList, .binary⟩, false⟩]

/-- A program with two arguments, a drive and two file mappings. -/
def projectConfig : Config :=
  { newConfig with
    program := "C:\\TC\\TCC.EXE".toList, args := ["-ml".toList, "MAIN.C".toList]
    drives := [⟨'C', "/home/dos".toList⟩]
    fileMappings := projectMappings }

theorem projectConfig_ok : ConfigOk projectConfig := by
  have hargs : ∀ a ∈ ["-ml".toList, "MAIN.C".toList], ArgOk a := by
    have hspace : ∀ a ∈ ["-ml".toList, "MAIN.C".toList], (a.all fun c => !isSpace c) = true := by decide +kernel
    intro a ha
    have hall := List.all_eq_true.mp (hspace a ha)
    refine ⟨?_, fun c hc => by simpa using hall c hc, ?_, ?_⟩ <;> clear hall <;> revert a <;> decide +kernel
  have hdrives : ∀ d ∈ [(⟨'C', "/home/dos".toList⟩ : DriveMount)], DriveOk d := by
    simp only [List.forall_mem_cons]
    refine ⟨⟨?_, ?_, ?_⟩, fun _ h => absurd h List.not_mem_nil⟩ <;> decide +kernel
  have hmappings : ∀ m ∈ projectMappings, MappingOk m := by
    simp only [projectMappings, List.forall_mem_cons]
    refine ⟨⟨⟨?_, ?_⟩, ?_, ?_, ?_, ?_, ?_, ?_⟩, ⟨⟨?_, ?_⟩, ?_, ?_, ?_, ?_, ?_, ?_⟩,
      fun _ h => absurd h List.not_mem_nil⟩ <;> decide +kernel
  refine ⟨?_, ?_, ?_, ?_, ?_, ?_, ?_, ?_, ⟨?_, ?_⟩, ⟨?_, ?_⟩, hargs, hdrives, hmappings⟩ <;> decide +kernel

theorem loadConfigFile_configText_project :
    loadConfigFile (fun _ => none) (configText projectConfig) newConfig =
      ⟨projectConfig, (settings projectConfig).length, []⟩ :=
  loadConfigFile_configText (fun _ => none) projectConfig_ok

end Dosiz.ConfigText
