/-
  Dosiz/EnvBlock.lean
  ===================
  **The environment block and the fixed tables in low memory.**

  `build_env_block` fills the 2 KB at ENV_SEG when the program starts.  Inside the same
  2 KB stand the INT 60h stub of the packet driver (the first paragraph
  `DOS_AllocateMemory` gives), the block AH=52 points to, and the tables of AH=63 and
  AH=65.  The format of a block (`encode`) and what the writer puts in memory
  (`buildEnvBlock_spec`) come first; then the three services and their runs.
-/
import Mathlib.Data.List.Chain
import Dosiz.Exec
import Dosiz.Transition

namespace Dosiz.EnvBlock

open ByteMemory Machine Transition

/-! ### The format -/

/-- The bytes of a C string: none is 0. -/
def CStr (s : List Nat) : Prop := ∀ c ∈ s, 0 < c ∧ c < 256

instance (s : List Nat) : Decidable (CStr s) := inferInstanceAs (Decidable (∀ c ∈ s, _))

/-- A string of the host. -/
structure HostStr where
  bytes : List Nat
  ok : CStr bytes

/-- The variables, each with its NUL. -/
def strings (ss : List (List Nat)) : List Nat := ss.flatMap (· ++ [0])

/-- An environment block: the variables, an extra NUL, the word 1, the program's path. -/
def encode (ss : List (List Nat)) (path : List Nat) : List Nat := strings ss ++ [0, 1, 0] ++ path ++ [0]

/-- The bytes of `bs` stand at `a`. -/
def BytesAt (mem : Mem) (a : Nat) (bs : List Nat) : Prop :=
  ∀ i, (h : i < bs.length) → readb mem (a + i) = bs[i]

/-- A well-formed environment block stands at `a`, in `ENV_BYTES` bytes. -/
def BlockAt (mem : Mem) (a : Nat) : Prop :=
  ∃ ss path, (∀ s ∈ ss, s ≠ [] ∧ CStr s) ∧ CStr path ∧ (encode ss path).length ≤ ENV_BYTES ∧
    BytesAt mem a (encode ss path)

/-! ### The writer -/

def ascii (s : String) : List Nat := s.toList.map Char.toNat

/-- The loop of `put_string`, over memory and `off`. -/
def putChars (base : Nat) : List Nat → Mem × Nat → (Mem × Nat) × Bool
  | [], r => (r, true)
  | c :: s, r =>
    if ENV_BYTES - 1 ≤ r.2 then (r, false) else putChars base s (writeb r.1 (base + r.2) c, r.2 + 1)

/-- `put_string` -/
def putString (base : Nat) (s : List Nat) (r : Mem × Nat) : (Mem × Nat) × Bool :=
  let p := putChars base s r
  if p.2 then ((writeb p.1.1 (base + p.1.2) 0, p.1.2 + 1), true) else p

/-- `put_string` of one string after another, up to the first that does not fit. -/
def putStrings (base : Nat) : List (List Nat) → Mem × Nat → (Mem × Nat) × Bool
  | [], r => (r, true)
  | s :: ss, r =>
    let p := putString base s r
    if p.2 then putStrings base ss p.1 else p

/-- The host variables the block carries over. -/
def hostKeys : List String :=
  ["HOME", "USER", "TMPDIR", "LANG", "TZ", "DJGPP", "WATCOM", "INCLUDE", "LIB", "LIBPATH"]

/-- PATH, extended by the host's DOSIZ_PATH. -/
def pathVal (getenv : String → Option HostStr) : List Nat :=
  match getenv "DOSIZ_PATH" with
  | none => ascii "C:\\"
  | some extra => if extra.bytes = [] then ascii "C:\\" else ascii "C:\\;" ++ extra.bytes

/-- The entry of a host variable that is set, and not too long. -/
def envEntry (getenv : String → Option HostStr) (key : String) : Option (List Nat) :=
  match getenv key with
  | none => none
  | some val =>
    let entry := ascii key ++ ascii "=" ++ val.bytes
    if val.bytes = [] ∨ 200 < entry.length then none else some entry

/-- The variables of the block. -/
def envStrings (getenv : String → Option HostStr) : List (List Nat) :=
  [ascii "COMSPEC=C:\\COMMAND.COM", ascii "PATH=" ++ pathVal getenv] ++
    hostKeys.filterMap (envEntry getenv)

/-- The path of the program below `C:\`. -/
def relPath (path : List Nat) : List Nat :=
  match path with
  | 0x2E :: c :: rest => if c = 0x2F ∨ c = 0x5C then rest else path
  | c :: rest => if c = 0x2F ∨ c = 0x5C then rest else path
  | [] => []

def programArgv0 (path : List Nat) : List Nat := ascii "C:\\" ++ (relPath path).map upperSlash

/-- `build_env_block`: memory, and whether everything fitted. -/
def buildEnvBlock (getenv : String → Option HostStr) (path : HostStr) (mem : Mem) : Mem × Bool :=
  let base := ENV_SEG * 16
  let p := putStrings base (envStrings getenv) (mem, 0)
  if !p.2 then (p.1.1, false)
  else if ENV_BYTES ≤ p.1.2 then (p.1.1, false)
  else
    let mem := writeb p.1.1 (base + p.1.2) 0
    let off := p.1.2 + 1
    if ENV_BYTES < off + 2 then (mem, false)
    else
      let mem := writeb (writeb mem (base + off) 1) (base + (off + 1)) 0
      let r := putString base (programArgv0 path.bytes) (mem, off + 2)
      (r.1.1, r.2)

/-- The block it is meant to write. -/
def envBlock (getenv : String → Option HostStr) (path : HostStr) : List Nat :=
  encode (envStrings getenv) (programArgv0 path.bytes)

/-! ### What is written -/

theorem storeBytes_append (mem : Mem) (a : Nat) (xs ys : List Nat) :
    storeBytes mem a (xs ++ ys) = storeBytes (storeBytes mem a xs) (a + xs.length) ys := by
  induction xs generalizing mem a with
  | nil => rfl
  | cons x xs ih =>
    rw [List.cons_append, storeBytes, ih, storeBytes, List.length_cons, Nat.add_right_comm,
      Nat.add_assoc]

theorem storeBytes_one (mem : Mem) (a c : Nat) : storeBytes mem a [c] = writeb mem a c := rfl

/-- Memory with `w` written at `base`, and the offset after it. -/
def wrote (mem : Mem) (base : Nat) (w : List Nat) : Mem × Nat := (storeBytes mem base w, w.length)

theorem wrote_byte (mem : Mem) (base : Nat) (w : List Nat) (c : Nat) :
    (writeb (wrote mem base w).1 (base + (wrote mem base w).2) c, (wrote mem base w).2 + 1) =
      wrote mem base (w ++ [c]) := by
  rw [wrote, wrote, storeBytes_append, storeBytes_one, List.length_append]
  rfl

/-- All the characters are written, or those that fit. -/
theorem putChars_spec (mem : Mem) (base : Nat) (s : List Nat) : ∀ w : List Nat,
    putChars base s (wrote mem base w) = (wrote mem base (w ++ s), true) ∨
      ∃ t, t <+: s ∧ ENV_BYTES - 1 ≤ (w ++ t).length ∧
        putChars base s (wrote mem base w) = (wrote mem base (w ++ t), false) := by
  induction s with
  | nil =>
    intro w
    left
    rw [List.append_nil]
    rfl
  | cons c s ih =>
    intro w
    rw [putChars]
    by_cases hfull : ENV_BYTES - 1 ≤ (wrote mem base w).2
    · right
      refine ⟨[], List.nil_prefix, ?_, ?_⟩
      · rw [List.append_nil]
        exact hfull
      · rw [if_pos hfull, List.append_nil]
    · rw [if_neg hfull, wrote_byte]
      rcases ih (w ++ [c]) with h | ⟨t, ht, hlen, h⟩
      · left
        rw [h, List.append_assoc]
        rfl
      · right
        refine ⟨c :: t, List.cons_prefix_cons.mpr ⟨rfl, ht⟩, ?_, ?_⟩
        · rw [List.append_assoc] at hlen
          exact hlen
        · rw [h, List.append_assoc]
          rfl

theorem putString_spec (mem : Mem) (base : Nat) (s w : List Nat) :
    putString base s (wrote mem base w) = (wrote mem base (w ++ (s ++ [0])), true) ∨
      ∃ t, t <+: s ++ [0] ∧ ENV_BYTES - 1 ≤ (w ++ t).length ∧
        putString base s (wrote mem base w) = (wrote mem base (w ++ t), false) := by
  unfold putString
  dsimp only
  rcases putChars_spec mem base s w with h | ⟨t, ht, hlen, h⟩
  · left
    rw [h, if_pos rfl, wrote_byte, List.append_assoc]
  · right
    refine ⟨t, ht.trans (List.prefix_append s [0]), hlen, ?_⟩
    rw [h]
    rfl

theorem putStrings_spec (mem : Mem) (base : Nat) (ss : List (List Nat)) : ∀ w : List Nat,
    putStrings base ss (wrote mem base w) = (wrote mem base (w ++ strings ss), true) ∨
      ∃ t, t <+: strings ss ∧ ENV_BYTES - 1 ≤ (w ++ t).length ∧
        putStrings base ss (wrote mem base w) = (wrote mem base (w ++ t), false) := by
  induction ss with
  | nil =>
    intro w
    left
    rw [strings, List.flatMap_nil, List.append_nil]
    rfl
  | cons s ss ih =>
    intro w
    have hcons : strings (s :: ss) = (s ++ [0]) ++ strings ss := rfl
    rw [putStrings]
    rcases putString_spec mem base s w with h | ⟨t, ht, hlen, h⟩
    · rw [h, if_pos rfl]
      rcases ih (w ++ (s ++ [0])) with h | ⟨t, ht, hlen, h⟩
      · left
        rw [h, hcons, List.append_assoc]
      · right
        refine ⟨(s ++ [0]) ++ t, ?_, ?_, ?_⟩
        · rw [hcons]
          exact (List.prefix_append_right_inj (s ++ [0])).mpr ht
        · rwa [← List.append_assoc]
        · rw [h, List.append_assoc]
    · right
      refine ⟨t, ht.trans ?_, hlen, ?_⟩
      · rw [hcons]
        exact List.prefix_append _ _
      · rw [h]
        rfl

/-- What `build_env_block` writes is the block, or as much of it as fills the 2 KB. -/
theorem buildEnvBlock_spec (getenv : String → Option HostStr) (path : HostStr) (mem : Mem) :
    ∃ w, w <+: envBlock getenv path ∧
      (buildEnvBlock getenv path mem).1 = storeBytes mem (ENV_SEG * 16) w ∧
      (w = envBlock getenv path ∨ ENV_BYTES - 1 ≤ w.length) := by
  have hblock : envBlock getenv path =
      strings (envStrings getenv) ++ ([0] ++ ([1] ++ ([0] ++ (programArgv0 path.bytes ++ [0])))) := by
    simp only [envBlock, encode, List.append_assoc, List.cons_append, List.nil_append]
  unfold buildEnvBlock
  dsimp only
  rw [show (mem, 0) = wrote mem (ENV_SEG * 16) [] from rfl, hblock]
  rcases putStrings_spec mem (ENV_SEG * 16) (envStrings getenv) [] with h | ⟨t, ht, hlen, h⟩
  swap
  · rw [h]
    exact ⟨t, ht.trans (List.prefix_append _ _), rfl, Or.inr hlen⟩
  rw [h, List.nil_append]
  generalize strings (envStrings getenv) = vars
  dsimp only
  rw [Bool.not_true, if_neg Bool.false_ne_true]
  by_cases hend : ENV_BYTES ≤ (wrote mem (ENV_SEG * 16) vars).2
  · refine ⟨vars, List.prefix_append _ _, ?_, Or.inr ((Nat.sub_le _ _).trans hend)⟩
    rw [if_pos hend]
    rfl
  have hone : ∀ w c, writeb (wrote mem (ENV_SEG * 16) w).1 (ENV_SEG * 16 +
      (wrote mem (ENV_SEG * 16) w).2) c = (wrote mem (ENV_SEG * 16) (w ++ [c])).1 := fun w c =>
    congrArg Prod.fst (wrote_byte mem (ENV_SEG * 16) w c)
  have hnext : ∀ w c, (wrote mem (ENV_SEG * 16) w).2 + 1 = (wrote mem (ENV_SEG * 16) (w ++ [c])).2 :=
    fun w c => congrArg Prod.snd (wrote_byte mem (ENV_SEG * 16) w c)
  rw [if_neg hend, hone, hnext vars 0]
  by_cases hcount : ENV_BYTES < (wrote mem (ENV_SEG * 16) (vars ++ [0])).2 + 2
  · refine ⟨vars ++ [0], ?_, ?_, Or.inr ?_⟩
    · exact (List.prefix_append_right_inj vars).mpr (List.prefix_append _ _)
    · rw [if_pos hcount]
      rfl
    · simp only [wrote] at hcount
      omega
  rw [if_neg hcount, hone, hnext (vars ++ [0]) 1, hone,
    show (wrote mem (ENV_SEG * 16) (vars ++ [0])).2 + 2 =
      (wrote mem (ENV_SEG * 16) (vars ++ [0] ++ [1] ++ [0])).2 by
        simp only [wrote, List.length_append, List.length_singleton]]
  rcases putString_spec mem (ENV_SEG * 16) (programArgv0 path.bytes) (vars ++ [0] ++ [1] ++ [0]) with
    h | ⟨t, ht, hlen, h⟩
  · refine ⟨vars ++ [0] ++ [1] ++ [0] ++ (programArgv0 path.bytes ++ [0]), ?_, ?_, Or.inl ?_⟩
    · simp only [List.append_assoc]
      exact List.prefix_refl _
    · exact congrArg (fun p : (Mem × Nat) × Bool => p.1.1) h
    · simp only [List.append_assoc]
  · refine ⟨vars ++ [0] ++ [1] ++ [0] ++ t, ?_, ?_, Or.inr hlen⟩
    · simp only [List.append_assoc]
      exact (List.prefix_append_right_inj vars).mpr ((List.prefix_append_right_inj [0]).mpr
        ((List.prefix_append_right_inj [1]).mpr ((List.prefix_append_right_inj [0]).mpr ht)))
    · exact congrArg (fun p : (Mem × Nat) × Bool => p.1.1) h

/-! ### The block it writes is well formed -/

theorem cstr_append {s t : List Nat} (hs : CStr s) (ht : CStr t) : CStr (s ++ t) := fun c hc => by
  rcases List.mem_append.mp hc with h | h
  · exact hs c h
  · exact ht c h

theorem pathVal_cstr (getenv : String → Option HostStr) : CStr (pathVal getenv) := by
  unfold pathVal
  split
  · decide
  · split
    · decide
    · rename_i extra _ _
      exact cstr_append (by decide) extra.ok

/-- Every variable is a C string that starts with a character of a name. -/
theorem envStrings_ok (getenv : String → Option HostStr) :
    ∀ s ∈ envStrings getenv, CStr s ∧ ∃ c ∈ s.head?, c < 0x80 := by
  intro s hs
  simp only [envStrings, List.cons_append, List.nil_append, List.mem_cons] at hs
  rcases hs with rfl | rfl | hs
  · exact ⟨by decide, 0x43, by decide, by decide⟩
  · exact ⟨cstr_append (by decide) (pathVal_cstr getenv), 0x50, rfl, by decide⟩
  · obtain ⟨key, hkey, hentry⟩ := List.mem_filterMap.mp hs
    have hname : ∀ k ∈ hostKeys, CStr (ascii k ++ ascii "=") ∧
        ∃ c ∈ (ascii k ++ ascii "=").head?, c < 0x80 := by decide
    obtain ⟨hk, c, hc, hlt⟩ := hname key hkey
    unfold envEntry at hentry
    split at hentry
    · cases hentry
    · rename_i val _
      dsimp only at hentry
      split at hentry
      · cases hentry
      · obtain rfl := Option.some.inj hentry
        refine ⟨cstr_append hk val.ok, c, ?_, hlt⟩
        rw [List.head?_append, Option.mem_def.mp hc]
        rfl

theorem upperSlash_pos {c : Nat} (h : 0 < c ∧ c < 256) : 0 < upperSlash c ∧ upperSlash c < 256 := by
  unfold upperSlash
  split
  · decide
  · split <;> omega

theorem relPath_subset (path : List Nat) : relPath path ⊆ path := by
  unfold relPath
  intro c hc
  split at hc
  · split at hc
    · exact List.mem_cons_of_mem _ (List.mem_cons_of_mem _ hc)
    · exact hc
  · split at hc
    · exact List.mem_cons_of_mem _ hc
    · exact hc
  · exact hc

theorem programArgv0_cstr (path : HostStr) : CStr (programArgv0 path.bytes) := by
  refine cstr_append (by decide) fun c hc => ?_
  obtain ⟨d, hd, rfl⟩ := List.mem_map.mp hc
  exact upperSlash_pos (path.ok d (relPath_subset path.bytes hd))

theorem strings_lt {ss : List (List Nat)} (h : ∀ s ∈ ss, CStr s) : ∀ c ∈ strings ss, c < 256 := by
  intro c hc
  obtain ⟨s, hs, hc⟩ := List.mem_flatMap.mp hc
  rcases List.mem_append.mp hc with hc | hc
  · exact (h s hs c hc).2
  · rw [List.mem_singleton.mp hc]
    decide

theorem envBlock_lt (getenv : String → Option HostStr) (path : HostStr) :
    ∀ c ∈ envBlock getenv path, c < 256 := by
  intro c hc
  simp only [envBlock, encode, List.append_assoc, List.mem_append] at hc
  rcases hc with hc | hc | hc | hc
  · exact strings_lt (fun s hs => (envStrings_ok getenv s hs).1) c hc
  · have hcount : ∀ d ∈ [0, 1, 0], d < 256 := by decide
    exact hcount c hc
  · exact (programArgv0_cstr path c hc).2
  · rw [List.mem_singleton.mp hc]
    decide

theorem bytesAt_storeBytes (mem : Mem) (a : Nat) {bs : List Nat} (h : ∀ c ∈ bs, c < 256) :
    BytesAt (storeBytes mem a bs) a bs := by
  intro i hi
  rw [readb_storeBytes mem a bs hi]
  exact Nat.mod_eq_of_lt (h _ (List.getElem_mem hi))

/-- A block that fits comes out well formed. -/
theorem buildEnvBlock_blockAt (getenv : String → Option HostStr) (path : HostStr) (mem : Mem)
    (h : (envBlock getenv path).length < ENV_BYTES - 1) :
    (buildEnvBlock getenv path mem).1 = storeBytes mem (ENV_SEG * 16) (envBlock getenv path) ∧
      BlockAt (buildEnvBlock getenv path mem).1 (ENV_SEG * 16) := by
  obtain ⟨w, hw, hmem, hall | hlong⟩ := buildEnvBlock_spec getenv path mem
  · rw [hall] at hmem
    refine ⟨hmem, envStrings getenv, programArgv0 path.bytes, fun s hs => ?_,
      programArgv0_cstr path, (Nat.lt_sub_iff_add_lt.mp h).le.trans' (Nat.le_succ _), ?_⟩
    · obtain ⟨hok, c, hc, -⟩ := envStrings_ok getenv s hs
      refine ⟨fun hnil => ?_, hok⟩
      rw [hnil] at hc
      cases hc
    · rw [hmem]
      exact bytesAt_storeBytes mem _ (envBlock_lt getenv path)
  · have hle := hw.length_le
    omega

/-- A NUL is never followed by a byte above 7Fh. -/
def Calm (l : List Nat) : Prop := List.IsChain (fun a b => a = 0 → b < 0x80) l

theorem calm_cstr_append {s l : List Nat} (hs : CStr s) (hl : Calm l) : Calm (s ++ l) := by
  induction s with
  | nil => exact hl
  | cons c s ih =>
    have htail := ih fun d hd => hs d (List.mem_cons_of_mem c hd)
    refine htail.cons fun d _ hz => ?_
    have hpos := (hs c List.mem_cons_self).1
    omega

/-- The variables in front of a calm rest that starts low. -/
theorem calm_strings {l : List Nat} (hl : Calm (0 :: l)) : ∀ {ss : List (List Nat)},
    (∀ s ∈ ss, CStr s ∧ ∃ c ∈ s.head?, c < 0x80) → Calm (0 :: (strings ss ++ l)) := by
  intro ss
  induction ss with
  | nil => exact fun _ => hl
  | cons s ss ih =>
    intro hss
    obtain ⟨hs, c, hc, hlt⟩ := hss s List.mem_cons_self
    have hrest := ih fun s hs => hss s (List.mem_cons_of_mem _ hs)
    have hcons : strings (s :: ss) ++ l = s ++ 0 :: (strings ss ++ l) := by
      simp only [strings, List.flatMap_cons, List.append_assoc, List.cons_append, List.nil_append]
    rw [hcons]
    refine List.IsChain.cons (calm_cstr_append hs hrest) fun d hd _ => ?_
    rw [List.head?_append, Option.mem_def.mp hc] at hd
    obtain rfl : c = d := Option.some.inj hd
    exact hlt

theorem envBlock_calm (getenv : String → Option HostStr) (path : HostStr) :
    Calm (envBlock getenv path) := by
  have hpath := calm_cstr_append (programArgv0_cstr path) (show Calm [0] from List.isChain_singleton 0)
  have hzero : Calm (0 :: (programArgv0 path.bytes ++ [0])) := hpath.cons fun d hd _ => by
    obtain rfl : 0x43 = d := Option.some.inj hd
    decide
  have hone : Calm (1 :: 0 :: (programArgv0 path.bytes ++ [0])) := hzero.cons fun d _ h => by cases h
  have htail : Calm (0 :: 0 :: 1 :: 0 :: (programArgv0 path.bytes ++ [0])) := by
    refine (hone.cons fun d hd _ => ?_).cons fun d hd _ => ?_
    · obtain rfl : 1 = d := Option.some.inj hd
      decide
    · obtain rfl : 0 = d := Option.some.inj hd
      decide
  have h : Calm (strings (envStrings getenv) ++ 0 :: 1 :: 0 :: (programArgv0 path.bytes ++ [0])) :=
    (calm_strings htail (envStrings_ok getenv)).tail
  simpa only [envBlock, encode, List.append_assoc, List.cons_append, List.nil_append] using h

/-! ### The stub of INT 60h -/

/-- `DOS_AllocateMemory`: `next` after the call, and the segment. -/
def dosAllocateMemory (next blocks : Nat) : Nat × Option Nat :=
  let need := if blocks = 0 then 1 else blocks
  if 0x100 < next + need then (next, none) else (next + need, some next)

/-- The paragraph of the stub: a jump over the signature, the signature, a far jump to the callback. -/
def stub (cbOff : Nat) : List Nat :=
  [0xEB, 0x09, 0x90] ++ ascii "PKT DRVR" ++
    [0xEA, cbOff % 256, cbOff / 256, CB_SEG % 256, CB_SEG / 256]

/-- The part of `dosiz_startup` that installs INT 60h. -/
def installStub (cbOff : Nat) (mem : Mem) : Mem :=
  match (dosAllocateMemory 0x60 1).2 with
  | none => mem
  | some seg =>
    let mem := storeBytes mem (seg * 16) (stub cbOff)
    writew (writew mem (0x60 * 4) 0) (0x60 * 4 + 2) seg

/-- Memory when the program starts. -/
def programStart (getenv : String → Option HostStr) (path : HostStr) (cbOff : Nat) (mem : Mem) : Mem :=
  (buildEnvBlock getenv path (installStub cbOff mem)).1

/-- The 2 KB at ENV_SEG. -/
def window : Set Nat := Set.Ico (ENV_SEG * 16) (ENV_SEG * 16 + ENV_BYTES)

theorem stub_lt {cbOff : Nat} (h : cbOff < 65536) : ∀ c ∈ stub cbOff, c < 256 := by
  intro c hc
  simp only [stub, List.append_assoc, List.mem_append, List.mem_cons, List.not_mem_nil, or_false] at hc
  rcases hc with (rfl | rfl | rfl) | hc | (rfl | rfl | rfl | rfl | rfl)
  · decide
  · decide
  · decide
  · have hsig : ∀ d ∈ ascii "PKT DRVR", d < 256 := by decide
    exact hsig c hc
  · decide
  · exact Nat.mod_lt _ (by decide)
  · omega
  · decide
  · decide

theorem stub_length (cbOff : Nat) : (stub cbOff).length = 16 := rfl

/-- Over zeroed low memory: the stub at 600h, zeros in the rest of the 2 KB. -/
theorem installStub_read {cbOff : Nat} (h : cbOff < 65536) {mem : Mem} (hz : ∀ x ∈ window, readb mem x = 0) :
    BytesAt (installStub cbOff mem) 0x600 (stub cbOff) ∧
      ∀ x ∈ window, x < 0x600 ∨ 0x610 ≤ x → readb (installStub cbOff mem) x = 0 := by
  have heq : installStub cbOff mem =
      writew (writew (storeBytes mem 0x600 (stub cbOff)) 0x180 0) 0x182 0x60 := rfl
  rw [heq]
  have hoff : ∀ x, 0x500 ≤ x → readb (writew (writew (storeBytes mem 0x600 (stub cbOff)) 0x180 0)
      0x182 0x60) x = readb (storeBytes mem 0x600 (stub cbOff)) x := by
    intro x hx
    rw [readb_writew_of_ne (by omega) (by omega), readb_writew_of_ne (by omega) (by omega)]
  constructor
  · intro i hi
    rw [hoff _ (by omega)]
    exact bytesAt_storeBytes mem 0x600 (stub_lt h) i hi
  · intro x hx hout
    have hlow : 0x500 ≤ x := hx.1
    rw [hoff x hlow, (storeBytes_off mem 0x600 (stub cbOff)).readb, hz x hx]
    intro hin
    have h₁ := hin.1
    have h₂ := hin.2
    rw [stub_length] at h₂
    omega

/-- As far as the block reaches to 600h, its bytes are those of the stub there. -/
def Agrees (getenv : String → Option HostStr) (path : HostStr) (cbOff : Nat) : Prop :=
  ∀ i, (h : i < (stub cbOff).length) → (hb : 0x100 + i < (envBlock getenv path).length) →
    (envBlock getenv path)[0x100 + i] = (stub cbOff)[i]

/-- A block that agrees with the stub ends inside it. -/
theorem Agrees.short {getenv : String → Option HostStr} {path : HostStr} {cbOff : Nat}
    (h : Agrees getenv path cbOff) : (envBlock getenv path).length < 0x110 := by
  by_contra hlong
  have hlen : 0x110 ≤ (envBlock getenv path).length := Nat.le_of_not_lt hlong
  -- the stub has a NUL and F0h behind it
  have h₁ := h 14 (by rw [stub_length]; decide) (by omega)
  have h₂ := h 15 (by rw [stub_length]; decide) (by omega)
  have hchain := List.isChain_iff_getElem.mp (envBlock_calm getenv path) (0x100 + 14) (by omega)
  have hz : (envBlock getenv path)[0x100 + 14] = 0 := h₁
  have hf := hchain hz
  have hv : (envBlock getenv path)[0x100 + 14 + 1] = 0xF0 := h₂
  omega

/-- At the program's start the block is well formed and the stub intact exactly where the block
    agrees with the stub. -/
theorem programStart_iff (getenv : String → Option HostStr) (path : HostStr) {cbOff : Nat}
    (hcb : cbOff < 65536) {mem : Mem} (hz : ∀ x ∈ window, readb mem x = 0) :
    (BlockAt (programStart getenv path cbOff mem) (ENV_SEG * 16) ∧
      BytesAt (programStart getenv path cbOff mem) 0x600 (stub cbOff)) ↔ Agrees getenv path cbOff := by
  obtain ⟨hstub, -⟩ := installStub_read hcb hz
  constructor
  · rintro ⟨-, hafter⟩ i hi hb
    obtain ⟨w, hw, hmem, hall⟩ := buildEnvBlock_spec getenv path (installStub cbOff mem)
    have hi16 : i < 16 := hi
    have hwlen : 0x100 + i < w.length := by
      rcases hall with rfl | hlong
      · exact hb
      · simp only [ENV_BYTES] at hlong
        omega
    have hread := hafter i hi
    rw [programStart, hmem, show 0x600 + i = ENV_SEG * 16 + (0x100 + i) by simp only [ENV_SEG]; omega,
      readb_storeBytes _ _ _ hwlen, hw.getElem hwlen,
      Nat.mod_eq_of_lt (envBlock_lt getenv path _ (List.getElem_mem hb))] at hread
    exact hread
  · intro h
    have hshort := h.short
    obtain ⟨hmem, hblock⟩ := buildEnvBlock_blockAt getenv path (installStub cbOff mem)
      (hshort.trans_le (by decide))
    refine ⟨hblock, fun i hi => ?_⟩
    rw [programStart, hmem]
    by_cases hb : 0x100 + i < (envBlock getenv path).length
    · rw [show 0x600 + i = ENV_SEG * 16 + (0x100 + i) by simp only [ENV_SEG]; omega,
        readb_storeBytes _ _ _ hb, h i hi hb]
      exact Nat.mod_eq_of_lt (stub_lt hcb _ (List.getElem_mem hi))
    · rw [(storeBytes_off _ _ _).readb]
      · exact hstub i hi
      · intro hin
        have h₂ := hin.2
        simp only [ENV_SEG] at h₂
        omega

/-! ### The services with tables in low memory -/

/-- The host with the `inited` of AH=52 and the `nls_installed` of AH=65. -/
structure LowHost where
  machine : Machine
  inited : Bool
  nlsInstalled : Bool

/-- The block AH=52 points to, with the end of the SFT chain. -/
def putSysvars (mem : Mem) : Mem := writeb (writeb (fill mem 0x600 16 0) 0x604 0xFF) 0x605 0xFF

/-- AH=52: the list of lists. -/
def int21_52 (eng : Engine) (s : LowHost) : LowHost :=
  let mem := if s.inited then s.machine.mem else putSysvars s.machine.mem
  { s with machine := (segSet16 eng (s.machine.setMem mem) .es 0x0060).setR16 .ebx 0, inited := true }

/-- AH=63: the lead-byte table. -/
def int21_63 (eng : Engine) (s : LowHost) : LowHost :=
  let mem := fill s.machine.mem 0x900 4 0
  { s with machine := ((segSet16 eng (s.machine.setMem mem) .ds 0x0090).setR16 .esi 0).setR8l .eax 0 }

/-- The uppercase and the collating table. -/
def putNls (mem : Mem) : Mem :=
  let mem := storeBytes (writew mem 0x700 128) 0x702 ((List.range 128).map (0x80 + ·))
  storeBytes (writew mem 0x800 256) 0x802 (List.range 256)

/-- The table of characters that may stand in a file name. -/
def fileChars : List Nat :=
  [0x17, 0x00, 0x00, 0x21, 0xFF, 0x00, 0x80, 0x80, 0x00, 13] ++
    (ascii ".\"/\\[]:|<>+=;,").take 13

/-- `emit_far_ptr` -/
def emitFarPtr (id seg off : Nat) : List Nat := [id, off % 256, off / 256, seg % 256, seg / 256]

/-- What AH=65 answers for AL. -/
def countryInfo (al : Nat) : List Nat :=
  if al = 0x05 then emitFarPtr 0x05 0x0060 0x0010
  else if al = 0x02 ∨ al = 0x04 then emitFarPtr al 0x0070 0x0000
  else if al = 0x06 then emitFarPtr 0x06 0x0080 0x0000
  else if al = 0x07 then [0x07, 0, 0, 0, 0]
  else
    [0x01, 41, 0, 0xB5, 0x01, 0x01, 0x00, 0, 0x24, 0] ++ List.replicate 4 0 ++ [0x2C, 0, 0x2E] ++
      List.replicate 13 0 ++ [0x3A, 0, 0x2F] ++ List.replicate 8 0

/-- AH=65: extended country information. -/
def int21_65 (s : LowHost) : LowHost :=
  let m := s.machine
  let mem := if s.nlsInstalled then m.mem else putNls m.mem
  let mem := if m.r8l .eax = 0x05 then storeBytes mem 0x610 fileChars else mem
  let info := (countryInfo (m.r8l .eax)).take m.cx
  let mem := storeLin mem (dosArgAddr m .es .edi) info
  { s with machine := (m.setMem mem).setR16 .ecx info.length, nlsInstalled := true }

inductive LowEvent where
  | guest (cpu : Cpu) (mem : Mem)
  | ah52 | ah63 | ah65

/-- Up to the `set_cf` a service ends in. -/
def LowEvent.serve (eng : Engine) (s : LowHost) : LowEvent → LowHost
  | .guest cpu mem => { s with machine := { s.machine with cpu := cpu, mem := mem } }
  | .ah52 => int21_52 eng s
  | .ah63 => int21_63 eng s
  | .ah65 => int21_65 s

def lowStep (eng : Engine) (s : LowHost) (e : LowEvent) (t : LowHost) : Prop :=
  t = match e with
    | .guest _ _ => e.serve eng s
    | _ => { e.serve eng s with machine := setCf (e.serve eng s).machine false }

/-- The guest leaves the 2 KB alone: it does not write there itself, passes no buffer there, and
    has no FLAGS image there. -/
def OffWindow (eng : Engine) (s : LowHost) : LowEvent → Prop
  | .guest _ mem => ∀ x ∈ window, mem x = s.machine.mem x
  | .ah65 => (∀ i < s.machine.cx, lin (dosArgAddr s.machine .es .edi + i) ∉ window) ∧
      flagsAddr (int21_65 s).machine ∉ window
  | e => flagsAddr (e.serve eng s).machine ∉ window

/-- The 2 KB are what they are in `mem`. -/
def SameWindow (mem : Mem) (s : LowHost) : Prop := ∀ x ∈ window, s.machine.mem x = mem x

theorem mem_window {x : Nat} (h₁ : 0x500 ≤ x) (h₂ : x < 0xD00) : x ∈ window := ⟨h₁, h₂⟩

theorem setCf_window {m : Machine} (h : flagsAddr m ∉ window) (v : Bool) :
    ∀ x ∈ window, (setCf m v).mem x = m.mem x := fun x hx =>
  setCf_off m v x fun hin => h (Set.mem_singleton_iff.mp hin ▸ hx)

theorem storeLin_read {x : Nat} (bs : List Nat) : ∀ (mem : Mem) (dst : Nat),
    (∀ i < bs.length, lin (dst + i) ≠ x) → storeLin mem dst bs x = mem x := by
  induction bs with
  | nil => exact fun _ _ _ => rfl
  | cons b bs ih =>
    intro mem dst h
    have hrest : ∀ i < bs.length, lin (dst + 1 + i) ≠ x := fun i hi => by
      rw [Nat.add_assoc, Nat.add_comm 1 i]
      exact h (i + 1) (Nat.succ_lt_succ hi)
    rw [storeLin, ih _ _ hrest]
    exact writeb_of_ne fun heq => h 0 (Nat.zero_lt_succ _) heq.symm

/-- The first AH=52 zeroes the start of the stub. -/
theorem int21_52_writes (eng : Engine) {s : LowHost} (h : s.inited = false) :
    (int21_52 eng s).machine.mem 0x600 = 0 := by
  simp only [int21_52, h, Bool.false_eq_true, if_false]
  show putSysvars s.machine.mem 0x600 = 0
  rw [putSysvars, writeb_of_ne (by decide), writeb_of_ne (by decide)]
  rfl

/-- The first AH=65 puts the uppercase table at 700h. -/
theorem int21_65_writes {s : LowHost} (h : s.nlsInstalled = false)
    (hbuf : ∀ i < s.machine.cx, lin (dosArgAddr s.machine .es .edi + i) ∉ window) :
    readb (int21_65 s).machine.mem 0x700 = 128 := by
  have hnls : ∀ mem, readb (putNls mem) 0x700 = 128 := by
    intro mem
    unfold putNls
    dsimp only
    rw [(storeBytes_off _ 0x802 _).readb fun hin => absurd hin.1 (by decide),
      readb_writew_of_ne (by decide) (by decide),
      (storeBytes_off _ 0x702 _).readb fun hin => absurd hin.1 (by decide), writew,
      readb_writeb_of_ne (by decide), readb_writeb]
  have hchars : ∀ mem, readb (storeBytes mem 0x610 fileChars) 0x700 = readb mem 0x700 := fun mem =>
    (storeBytes_off mem 0x610 fileChars).readb fun hin => absurd hin.2 (by decide)
  simp only [int21_65, h, Bool.false_eq_true, if_false]
  have hlin : ∀ mem, readb (storeLin mem (dosArgAddr s.machine .es .edi)
      ((countryInfo (s.machine.r8l .eax)).take s.machine.cx)) 0x700 = readb mem 0x700 := by
    intro mem
    refine congrArg UInt8.toNat (storeLin_read _ mem _ fun i hi heq => ?_)
    rw [List.length_take] at hi
    exact hbuf i (hi.trans_le (Nat.min_le_left _ _)) (heq ▸ mem_window (by decide) (by decide))
  refine (hlin _).trans ?_
  split
  · rw [hchars, hnls]
  · exact hnls _

/-- AH=63 writes four zeros. -/
theorem int21_63_keeps (eng : Engine) (s : LowHost) {mem : Mem} (hz : ∀ i < 4, mem (0x900 + i) = 0)
    (h : SameWindow mem s) : SameWindow mem (int21_63 eng s) := by
  intro x hx
  show fill s.machine.mem 0x900 4 0 x = mem x
  unfold fill
  split
  · rename_i hin
    have hzero := hz (x - 0x900) (by omega)
    rw [show 0x900 + (x - 0x900) = x by omega] at hzero
    exact hzero.symm
  · exact h x hx

/-! ### Runs -/

/-- AH=52 and AH=65 have a table in the 2 KB that is not 0. -/
def Harmless : LowEvent → Prop
  | .ah52 | .ah65 => False
  | _ => True

/-- Without AH=52 and AH=65 nothing changes in the 2 KB. -/
theorem keeps_of_harmless {eng : Engine} {mem : Mem} (hz : ∀ i < 4, mem (0x900 + i) = 0)
    {s t : LowHost} {es : List LowEvent} (hrun : Guarded (lowStep eng) (OffWindow eng) s es t) :
    (∀ e ∈ es, Harmless e) → SameWindow mem s →
      Throughout (lowStep eng) (OffWindow eng) (SameWindow mem) s es t := by
  induction hrun with
  | nil s => exact fun _ h => .nil h
  | @cons s u t e es hg hs rest ih =>
    intro hes h
    refine .cons hg h hs (ih (fun e he => hes e (List.mem_cons_of_mem _ he)) ?_)
    have he := hes e List.mem_cons_self
    cases e with
    | guest cpu mem' =>
      obtain rfl := hs
      exact fun x hx => (hg x hx).trans (h x hx)
    | ah63 =>
      obtain rfl := hs
      exact fun x hx => (setCf_window hg false x hx).trans (int21_63_keeps eng s hz h x hx)
    | ah52 => exact absurd he id
    | ah65 => exact absurd he id

/-- The first AH=52 or AH=65 changes the 2 KB. -/
theorem harmless_of_keeps {eng : Engine} {mem : Mem} (h₆ : mem 0x600 ≠ 0) (h₇ : mem 0x700 = 0)
    {s t : LowHost} {es : List LowEvent}
    (hrun : Guarded (lowStep eng) (fun s e => OffWindow eng s e ∧ SameWindow mem s) s es t) :
    SameWindow mem t → s.inited = false → s.nlsInstalled = false → ∀ e ∈ es, Harmless e := by
  induction hrun with
  | nil s => exact fun _ _ _ e he => absurd he (List.not_mem_nil)
  | @cons s u t e es hg hs rest ih =>
    intro hlast hi hn
    have hu : SameWindow mem u := Throughout.first ⟨rest, hlast⟩
    have hrest : Harmless e ∧ u.inited = false ∧ u.nlsInstalled = false := by
      cases e with
      | guest cpu mem' =>
        obtain rfl := hs
        exact ⟨trivial, hi, hn⟩
      | ah63 =>
        obtain rfl := hs
        exact ⟨trivial, hi, hn⟩
      | ah52 =>
        obtain rfl := hs
        have hx : 0x600 ∈ window := mem_window (by decide) (by decide)
        have hread : (setCf (int21_52 eng s).machine false).mem 0x600 = mem 0x600 := hu 0x600 hx
        have hoff : flagsAddr (int21_52 eng s).machine ∉ window := hg.1
        rw [setCf_window hoff false 0x600 hx, int21_52_writes eng hi] at hread
        exact absurd hread.symm h₆
      | ah65 =>
        obtain rfl := hs
        have hx : 0x700 ∈ window := mem_window (by decide) (by decide)
        have hread : (setCf (int21_65 s).machine false).mem 0x700 = mem 0x700 := hu 0x700 hx
        rw [setCf_window hg.1.2 false 0x700 hx, h₇] at hread
        have htable := int21_65_writes hn hg.1.1
        rw [readb, hread] at htable
        exact absurd htable (by decide)
    intro e' he'
    rcases List.mem_cons.mp he' with rfl | he'
    · exact hrest.1
    · exact ih hlast hrest.2.1 hrest.2.2 e' he'

/-- The program starts in the 2 KB `build_env_block` and the stub leave. -/
structure Started (getenv : String → Option HostStr) (path : HostStr) (cbOff : Nat) (s : LowHost) :
    Prop where
  mem : ∃ mem, (∀ x ∈ window, readb mem x = 0) ∧ s.machine.mem = programStart getenv path cbOff mem
  inited : s.inited = false
  nls : s.nlsInstalled = false

/-- Behind a block that ends inside the stub the 2 KB are 0. -/
theorem programStart_zero {getenv : String → Option HostStr} {path : HostStr} {cbOff : Nat}
    (hcb : cbOff < 65536) {mem : Mem} (hz : ∀ x ∈ window, readb mem x = 0)
    (h : Agrees getenv path cbOff) {x : Nat} (h₁ : 0x610 ≤ x) (h₂ : x < 0xD00) :
    programStart getenv path cbOff mem x = 0 := by
  have hshort := h.short
  obtain ⟨hmem, -⟩ := buildEnvBlock_blockAt getenv path (installStub cbOff mem)
    (hshort.trans_le (by decide))
  have hzero := (installStub_read hcb hz).2 x (mem_window (by omega) h₂) (Or.inr h₁)
  rw [programStart, hmem, storeBytes_off _ _ _ x fun hin => ?_]
  · exact UInt8.toNat_inj.mp hzero
  · have hend := hin.2
    simp only [ENV_SEG] at hend
    omega

/-- **The environment block, the stub and the tables.**  The block is well formed and the stub intact
    when the program starts, and the 2 KB stay as they are through the run, exactly where the block
    ends before the stub (or agrees with it) and the run makes no AH=52 and no AH=65 call. -/
theorem envBlock_kept_iff {eng : Engine} {getenv : String → Option HostStr} {path : HostStr} {cbOff : Nat}
    (hcb : cbOff < 65536) {s t : LowHost} {es : List LowEvent} (hs : Started getenv path cbOff s)
    (hrun : Guarded (lowStep eng) (OffWindow eng) s es t) :
    (BlockAt s.machine.mem (ENV_SEG * 16) ∧ BytesAt s.machine.mem 0x600 (stub cbOff) ∧
      Throughout (lowStep eng) (OffWindow eng) (SameWindow s.machine.mem) s es t) ↔
      Agrees getenv path cbOff ∧ ∀ e ∈ es, Harmless e := by
  obtain ⟨⟨mem, hz, hmem⟩, hi, hn⟩ := hs
  have hstart := programStart_iff getenv path hcb hz
  rw [← hmem] at hstart
  constructor
  · rintro ⟨hblock, hstub, hkept⟩
    have hagrees := hstart.mp ⟨hblock, hstub⟩
    refine ⟨hagrees, harmless_of_keeps ?_ ?_ hkept.1 hkept.2 hi hn⟩
    · intro h0
      have hfirst : readb s.machine.mem 0x600 = 0xEB := hstub 0 (by rw [stub_length]; decide)
      rw [readb, h0] at hfirst
      exact absurd hfirst (by decide)
    · rw [hmem]
      exact programStart_zero hcb hz hagrees (by decide) (by decide)
  · rintro ⟨hagrees, hes⟩
    obtain ⟨hblock, hstub⟩ := hstart.mpr hagrees
    refine ⟨hblock, hstub, keeps_of_harmless (fun i hi => ?_) hrun hes fun _ _ => rfl⟩
    rw [hmem]
    exact programStart_zero hcb hz hagrees (by omega) (by omega)

/-! ### A short block, and AH=52 -/

/-- The program "PROG.EXE", started without any of the host's variables. -/
def progStarted : LowHost where
  machine := { bootMachine with mem := programStart (fun _ => none) ⟨ascii "PROG.EXE", by decide⟩ 0x1000 bootMachine.mem }
  inited := false
  nlsInstalled := false

theorem progStarted_started :
    Started (fun _ => none) ⟨ascii "PROG.EXE", by decide⟩ 0x1000 progStarted :=
  ⟨⟨bootMachine.mem, fun _ _ => rfl, rfl⟩, rfl, rfl⟩

theorem progStarted_agrees : Agrees (fun _ => none) ⟨ascii "PROG.EXE", by decide⟩ 0x1000 := by
  intro i _ hb
  have hlen : (envBlock (fun _ => none) ⟨ascii "PROG.EXE", by decide⟩).length < 0x100 := by
    decide +kernel
  omega

theorem flagsAddr_progStarted (e : LowEvent) (he : e = .ah52 ∨ e = .ah63) :
    flagsAddr (e.serve cpuEngine progStarted).machine ∉ window := by
  have haddr : flagsAddr (e.serve cpuEngine progStarted).machine = 4 := by
    rcases he with rfl | rfl
    · rfl
    · rfl
  rw [haddr]
  exact fun hin => absurd hin.1 (by decide)

/-- AH=63 alone leaves the 2 KB as they are. -/
theorem envBlock_kept_iff_dbcs : ∃ t, Throughout (lowStep cpuEngine) (OffWindow cpuEngine)
    (SameWindow progStarted.machine.mem) progStarted [.ah63] t := by
  obtain ⟨t, ht⟩ : ∃ t, lowStep cpuEngine progStarted .ah63 t := ⟨_, rfl⟩
  have hrun : Guarded (lowStep cpuEngine) (OffWindow cpuEngine) progStarted [.ah63] t :=
    .cons (flagsAddr_progStarted .ah63 (Or.inr rfl)) ht (.nil t)
  have hboth := (envBlock_kept_iff (by decide) progStarted_started hrun).mpr
    ⟨progStarted_agrees, fun e he => by rw [List.mem_singleton.mp he]; trivial⟩
  exact ⟨t, hboth.2.2⟩

/-- AH=52 puts its block over the stub. -/
theorem envBlock_overwritten : ¬ ∀ es t,
    Guarded (lowStep cpuEngine) (OffWindow cpuEngine) progStarted es t →
    BlockAt progStarted.machine.mem (ENV_SEG * 16) ∧
      BytesAt progStarted.machine.mem 0x600 (stub 0x1000) ∧
      Throughout (lowStep cpuEngine) (OffWindow cpuEngine) (SameWindow progStarted.machine.mem)
        progStarted es t := by
  intro h
  obtain ⟨t, ht⟩ : ∃ t, lowStep cpuEngine progStarted .ah52 t := ⟨_, rfl⟩
  have hrun : Guarded (lowStep cpuEngine) (OffWindow cpuEngine) progStarted [.ah52] t :=
    .cons (flagsAddr_progStarted .ah52 (Or.inl rfl)) ht (.nil t)
  obtain ⟨-, hstub, hkept⟩ := h _ _ hrun
  have hz : ∀ x ∈ window, readb bootMachine.mem x = 0 := fun _ _ => rfl
  have hzero : programStart (fun _ => none) ⟨ascii "PROG.EXE", by decide⟩ 0x1000 bootMachine.mem 0x700 =
      0 := programStart_zero (by decide) hz progStarted_agrees (by decide) (by decide)
  have hfirst : readb progStarted.machine.mem 0x600 = 0xEB := hstub 0 (by rw [stub_length]; decide)
  refine harmless_of_keeps (fun h0 => ?_) ?_ hkept.1 hkept.2 rfl rfl .ah52 List.mem_cons_self
  · rw [readb, h0] at hfirst
    exact absurd hfirst (by decide)
  · exact hzero

end Dosiz.EnvBlock
