/-
  Dosiz/ConsoleInput.lean
  =======================
  **The services that read standard input** (INT 16h without a window, and INT 21h AH=01, 06, 07, 08, 0A and 3F of
  `bridge.cc`).

  INT 16h AH=01 reads a byte ahead and keeps it for AH=00; AH=3F in text mode keeps an LF back.  All services read
  the same descriptor, and none asks whether another one keeps a byte.  So what a program is given is the stream in
  its order as long as no service goes past a byte that another one keeps (`consoleReads_inOrder`).
-/
import Dosiz.Gates
import Dosiz.TextRead

namespace Dosiz.ConsoleInput

open ByteMemory Machine FileHandles TextRead Transition Gates

/-! ### The services -/

/-- The stream with `stdin_pending`, and `s_int16_peek`. -/
structure ConsoleIn extends TextIn where
  peek : Option UInt8
  deriving DecidableEq

/-- `::read` of one byte. -/
def ConsoleIn.readByte (s : ConsoleIn) : Option UInt8 × ConsoleIn :=
  (s.input.head?, { s with input := s.input.tail })

def cr (c : UInt8) : UInt8 := if c = 0x0A then 0x0D else c

def letterScan (c : UInt8) : Option Nat :=
  if 0x61 ≤ c ∧ c ≤ 0x7A then some (c.toNat - 0x61 + 0x1E)
  else if 0x41 ≤ c ∧ c ≤ 0x5A then some (c.toNat - 0x41 + 0x1E)
  else none

/-- AL and AH of INT 16h. -/
def setKey (m : Machine) (c : UInt8) (scan : Nat) : Machine := (m.setR8l .eax c.toNat).setR8h .eax scan

/-- INT 16h AH=00 and AH=10; at the end of the stream ESC. -/
def int16_00 (m : Machine) (s : ConsoleIn) : Machine × ConsoleIn :=
  let r := match s.peek with
    | some c => (some c, { s with peek := none })
    | none => s.readByte
  let c := cr (r.1.getD 0x1B)
  (setKey m c ((letterScan c).getD (if c = 0x0D then 0x1C else 0x01)), r.2)

/-- What INT 16h AH=01 does to have a byte to look at; `ready` is `stdin_has_data`. -/
def fillPeek (ready : Bool) (s : ConsoleIn) : ConsoleIn :=
  match s.peek with
  | some _ => s
  | none => if ready then { s.readByte.2 with peek := s.readByte.1.map cr } else s

/-- INT 16h AH=01 and AH=11. -/
def int16_01 (m : Machine) (ready : Bool) (s : ConsoleIn) : Machine × ConsoleIn :=
  let s := fillPeek ready s
  match s.peek with
  | none => (callbackSzf m true, s)
  | some c => (callbackSzf (setKey m c ((letterScan c).getD 0x01)) false, s)

/-- AH=01, AH=07 and AH=08. -/
def int21_01 (m : Machine) (s : ConsoleIn) : Machine × ConsoleIn :=
  (m.setR8l .eax (s.readByte.1.elim 0 fun c => (cr c).toNat), s.readByte.2)

/-- AH=06 with DL=FF. -/
def int21_06 (m : Machine) (ready : Bool) (s : ConsoleIn) : Machine × ConsoleIn :=
  if ready then
    match s.readByte with
    | (some c, s) => (callbackSzf (m.setR8l .eax (cr c).toNat) false, s)
    | (none, s) => (callbackSzf (m.setR8l .eax 0) true, s)
  else (callbackSzf (m.setR8l .eax 0) true, s)

/-- What the loop of AH=0A takes: it stops behind a CR. -/
def lineOf : Nat → List UInt8 → List UInt8
  | 0, _ => []
  | _ + 1, [] => []
  | n + 1, c :: input => if cr c = 0x0D then [c] else c :: lineOf n input

/-- AH=0A: the buffer at DS:DX has its size in its first byte; the count goes to the second. -/
def int21_0A (m : Machine) (s : ConsoleIn) : Machine × ConsoleIn :=
  let buf := dosArgAddr m .ds .edx
  let max := readb m.mem buf
  if max = 0 then (m.setMem (writeb m.mem (lin (buf + 1)) 0), s)
  else
    let taken := lineOf (max - 1) s.input
    (m.setMem (writeb (storeLin m.mem (buf + 2) (taken.map fun c => (cr c).toNat)) (lin (buf + 1)) taken.length),
      { s with input := s.input.drop taken.length })

/-- AH=3F with BX=0; `text` is the mode of standard input. -/
def int21_3F_stdin (text : Bool) (m : Machine) (s : ConsoleIn) : Machine × ConsoleIn :=
  if text then
    let r := int21_3F_text m s.toTextIn
    (r.1.1, { s with toTextIn := r.2 })
  else
    let bytes := s.input.take (readCount m)
    ((int21_3F m ⟨bytes.length, bytes.map UInt8.toNat, false⟩).1, { s with input := s.input.drop (readCount m) })

/-- A call, with the machine it comes from and what `stdin_has_data` answers. -/
inductive Call where
  | int16_00 (m : Machine)
  | int16_01 (m : Machine) (ready : Bool)
  | int21_01 (m : Machine)
  | int21_06 (m : Machine) (ready : Bool)
  | int21_0A (m : Machine)
  | int21_3F (m : Machine)

/-- The calls that are about standard input: AH=06 has DL=FF and AH=3F has BX=0. -/
def Call.OnStdin : Call → Prop
  | .int21_06 m _ => m.r8l .edx = 0xFF
  | .int21_3F m => m.bx = 0
  | _ => True

def Call.serve (text : Bool) : Call → ConsoleIn → Machine × ConsoleIn
  | .int16_00 m, s => ConsoleInput.int16_00 m s
  | .int16_01 m ready, s => ConsoleInput.int16_01 m ready s
  | .int21_01 m, s => ConsoleInput.int21_01 m s
  | .int21_06 m ready, s => ConsoleInput.int21_06 m ready s
  | .int21_0A m, s => ConsoleInput.int21_0A m s
  | .int21_3F m, s => int21_3F_stdin text m s

/-! ### What a program is given -/

/-- How a byte of the stream reaches the program: as a character, or by AH=3F. -/
inductive Source where
  | char | file
  deriving DecidableEq

/-- The buffer of AH=0A as the call leaves it. -/
def lineGiven (m m' : Machine) : List Nat :=
  let buf := dosArgAddr m .ds .edx
  (List.range (readb m'.mem (lin (buf + 1)))).map fun i => readb m'.mem (lin (buf + 2 + i))

/-- The bytes the call consumes, as the program sees them in AL or in its buffer; a 1Ah that ends a read is
    consumed too. -/
def Call.gives (text : Bool) (s : ConsoleIn) (c : Call) : List (Source × Nat) :=
  let r := c.serve text s
  match c with
  | .int16_00 _ => if s.peek = none ∧ s.input = [] then [] else [(.char, r.1.r8l .eax)]
  | .int16_01 _ _ => []
  | .int21_01 _ => if s.input = [] then [] else [(.char, r.1.r8l .eax)]
  | .int21_06 _ ready => if ready = false ∨ s.input = [] then [] else [(.char, r.1.r8l .eax)]
  | .int21_0A m => (lineGiven m r.1).map (Source.char, ·)
  | .int21_3F m =>
    let taken := s.input.take (s.input.length - r.2.input.length)
    (TextRead.returned m r.1).map (Source.file, ·) ++
      if text then (taken.filter (· = 0x1A)).map (Source.file, ·.toNat) else []

/-- The console with all that was given. -/
structure World where
  console : ConsoleIn
  log : List (Source × Nat)
  deriving DecidableEq

def World.next (text : Bool) (w : World) (c : Call) : World :=
  ⟨(c.serve text w.console).2, w.log ++ c.gives text w.console⟩

def consoleStep (text : Bool) (w : World) (c : Call) (w' : World) : Prop := c.OnStdin ∧ w' = w.next text c

def startWorld (stream : List UInt8) : World := ⟨⟨⟨none, stream⟩, none⟩, []⟩

/-- What is to be seen of a byte: a character has CR for LF, and AH=3F in text mode gives CR LF. -/
def report (text : Bool) : Source × UInt8 → List (Source × Nat)
  | (.char, b) => [(.char, (cr b).toNat)]
  | (.file, b) => if text ∧ b = 0x0A then [(.file, 0x0D), (.file, 0x0A)] else [(.file, b.toNat)]

/-- What was given is the stream from its start on, each byte once. -/
def InOrder (text : Bool) (stream : List UInt8) (log : List (Source × Nat)) : Prop :=
  ∃ reads : List (Source × UInt8), reads.map Prod.snd <+: stream ∧ log <+: reads.flatMap (report text)

/-! ### Going past a byte that is kept -/

/-- The call reads the descriptor with room for a byte. -/
def Call.asks (text : Bool) (s : ConsoleIn) : Call → Bool
  | .int16_00 _ => s.peek.isNone
  | .int16_01 _ ready => s.peek.isNone && ready
  | .int21_01 _ => true
  | .int21_06 _ ready => ready
  | .int21_0A m => 2 ≤ readb m.mem (dosArgAddr m .ds .edx)
  | .int21_3F m => (if text then s.pending.toList.length else 0) < readCount m

/-- The call gives characters. -/
def Call.givesChars : Call → Bool
  | .int16_01 _ _ => false
  | .int21_3F _ => false
  | _ => true

/-- The call gives the byte INT 16h has looked at. -/
def Call.fromPeek (s : ConsoleIn) : Call → Bool
  | .int16_00 _ => s.peek.isSome
  | _ => false

/-- While INT 16h keeps a byte no call reads another one, and while AH=3F keeps an LF no other call gives one. -/
structure Careful (text : Bool) (s : ConsoleIn) (c : Call) : Prop where
  peeked : s.peek.isSome → c.asks text s → s.input = []
  kept : s.pending.isSome → c.givesChars → c.fromPeek s = false ∧ (c.asks text s → s.input = [])

/-! ### What the program sees is what was taken -/

theorem r8l_setKey (m : Machine) (c : UInt8) (scan : Nat) : (setKey m c scan).r8l .eax = c.toNat := by
  rw [setKey, r8l_setR8h, r8l_setR8l]
  exact Nat.mod_eq_of_lt c.toNat_lt

theorem r8l_setByte (m : Machine) (c : UInt8) : (m.setR8l .eax c.toNat).r8l .eax = c.toNat :=
  (r8l_setR8l m .eax _).trans (Nat.mod_eq_of_lt c.toNat_lt)

theorem lineOf_length : ∀ (n : Nat) (input : List UInt8), (lineOf n input).length ≤ n
  | 0, _ => Nat.le_refl 0
  | _ + 1, [] => Nat.zero_le _
  | n + 1, c :: input => by
    rw [lineOf]
    split
    · exact Nat.succ_le_succ (Nat.zero_le n)
    · exact Nat.succ_le_succ (lineOf_length n input)

theorem lineOf_isPrefix : ∀ (n : Nat) (input : List UInt8), lineOf n input <+: input
  | 0, _ => List.nil_prefix
  | _ + 1, [] => List.nil_prefix
  | n + 1, c :: input => by
    rw [lineOf]
    split
    · exact (List.cons_prefix_cons).mpr ⟨rfl, List.nil_prefix⟩
    · exact (List.cons_prefix_cons).mpr ⟨rfl, lineOf_isPrefix n input⟩

/-- What AH=0A takes from the stream. -/
def lineTaken (m : Machine) (s : ConsoleIn) : List UInt8 := lineOf (readb m.mem (dosArgAddr m .ds .edx) - 1) s.input

theorem int21_0A_input (m : Machine) (s : ConsoleIn) :
    (int21_0A m s).2 = { s with input := s.input.drop (lineTaken m s).length } := by
  unfold int21_0A
  dsimp only
  split
  · next hmax =>
    rw [lineTaken, hmax]
    rfl
  · rfl

/-- The buffer of AH=0A has what was taken, as characters. -/
theorem lineGiven_eq (m : Machine) (s : ConsoleIn) :
    lineGiven m (int21_0A m s).1 = (lineTaken m s).map fun c => (cr c).toNat := by
  unfold int21_0A lineGiven lineTaken
  generalize dosArgAddr m .ds .edx = buf
  dsimp only
  split
  · next hmax =>
    rw [hmax, show lineOf (0 - 1) s.input = [] from rfl, setMem, readb_writeb]
    rfl
  · next hmax =>
    have hmaxlt : readb m.mem buf < 256 := readb_lt m.mem buf
    have hlen := lineOf_length (readb m.mem buf - 1) s.input
    generalize hline : lineOf (readb m.mem buf - 1) s.input = taken at hlen
    dsimp only [setMem]
    rw [readb_writeb, Nat.mod_eq_of_lt (by omega)]
    refine List.ext_getElem (by rw [List.length_map, List.length_range, List.length_map]) fun i h₁ h₂ => ?_
    rw [List.length_map] at h₂
    have hoff : lin (buf + 2 + i) ≠ lin (buf + 1) := fun heq => by
      have hsame := lin_add_inj (show 1 + i < 4294967296 by omega) (show 0 < 4294967296 by omega)
        (show lin (buf + 1 + (1 + i)) = lin (buf + 1 + 0) by rw [← heq]; congr 1; omega)
      omega
    simp only [List.getElem_map, List.getElem_range]
    rw [readb_writeb_of_ne hoff]
    have hstored := FindTimes.readb_storeLin m.mem (buf + 2) (taken.map fun c => (cr c).toNat)
      (by rw [List.length_map]; omega) (by rw [List.length_map]; exact h₂)
    refine hstored.trans ?_
    rw [List.getElem_map]
    exact Nat.mod_eq_of_lt (UInt8.toNat_lt _)

/-- A text read with what it leaves behind: all it took is in what it returns, but for the 1Ah that ends it. -/
theorem readText_report : ∀ (n : Nat) (s : TextIn), ∃ taken, s.input = taken ++ (readText n s).2.input ∧
    s.pending.toList.map (Source.file, ·.toNat) ++ (taken.map (Source.file, ·)).flatMap (report true) =
      (readText n s).1.map (Source.file, ·.toNat) ++ (taken.filter (· = 0x1A)).map (Source.file, ·.toNat) ++
        (readText n s).2.pending.toList.map (Source.file, ·.toNat)
  | 0, s => ⟨[], rfl, List.append_nil _⟩
  | n + 1, ⟨some b, input⟩ => by
    obtain ⟨taken, hinput, hlog⟩ := readText_report n ⟨none, input⟩
    rw [readText_pending]
    exact ⟨taken, hinput, congrArg ((Source.file, b.toNat) :: ·) hlog⟩
  | n + 1, ⟨none, []⟩ => ⟨[], rfl, rfl⟩
  | n + 1, ⟨none, b :: input⟩ => by
    by_cases h₁ : b = 0x1A
    · rw [h₁, readText_end]
      exact ⟨[0x1A], rfl, rfl⟩
    · have hmarks : ∀ taken, (b :: taken).filter (· = 0x1A) = taken.filter (· = 0x1A) := fun taken =>
        List.filter_cons_of_neg (by simpa using h₁)
      by_cases h₂ : b = 0x0A
      · obtain ⟨taken, hinput, hlog⟩ := readText_report n ⟨some 0x0A, input⟩
        rw [h₂, readText_lf]
        refine ⟨0x0A :: taken, congrArg (0x0A :: ·) hinput, ?_⟩
        rw [h₂] at hmarks
        rw [hmarks]
        exact congrArg ((Source.file, 0x0D) :: ·) hlog
      · obtain ⟨taken, hinput, hlog⟩ := readText_report n ⟨none, input⟩
        rw [readText_other n h₁ h₂]
        refine ⟨b :: taken, congrArg (b :: ·) hinput, ?_⟩
        have hplain : report true (Source.file, b) = [(Source.file, b.toNat)] := if_neg fun h => h₂ h.2
        rw [hmarks, List.map_cons, List.flatMap_cons, hplain]
        exact congrArg ((Source.file, b.toNat) :: ·) hlog

/-! ### One call -/

/-- What AH=3F has still to give. -/
def keptLog (s : ConsoleIn) : List (Source × Nat) := s.pending.toList.map (Source.file, ·.toNat)

/-- From `s` to `s'` the bytes `taken` of the stream were given as `g`; `held` and `held'` are what INT 16h keeps. -/
structure Advance (text : Bool) (s : ConsoleIn) (g : List (Source × Nat)) (s' : ConsoleIn)
    (held : Option UInt8) (taken : List (Source × UInt8)) (held' : Option UInt8) : Prop where
  bytes : held.toList ++ s.input = taken.map Prod.snd ++ (held'.toList ++ s'.input)
  log : keptLog s ++ taken.flatMap (report text) = g ++ keptLog s'
  peek : s'.peek = held'.map cr
  binary : text = false → s.pending = none → s'.pending = none

section Calls

variable {text : Bool} {s : ConsoleIn} {held : Option UInt8}

/-- A call that gives nothing and leaves the console as it was. -/
theorem Advance.none (hpeek : s.peek = held.map cr) : Advance text s [] s held [] held where
  bytes := rfl
  log := List.append_nil _
  peek := hpeek
  binary := fun _ h => h

/-- Bytes read from the descriptor: there are none of them while INT 16h keeps one. -/
theorem Advance.read (src : Source) {g : List (Source × Nat)} {taken rest : List UInt8} {pending : Option UInt8}
    (hin : s.input = taken ++ rest) (hpeek : s.peek = held.map cr) (hheld : s.peek.isSome → taken = [])
    (hlog : keptLog s ++ (taken.map (src, ·)).flatMap (report text) = g ++ pending.toList.map (Source.file, ·.toNat))
    (hbin : text = false → s.pending = .none → pending = .none) :
    Advance text s g ⟨⟨pending, rest⟩, s.peek⟩ held (taken.map (src, ·)) held where
  bytes := by
    have hmap : (taken.map (src, ·)).map Prod.snd = taken := by
      rw [List.map_map]
      exact List.map_id taken
    rw [hmap, hin]
    cases held with
    | none => rfl
    | some c => rw [hheld (by rw [hpeek]; rfl), List.nil_append, List.nil_append]
  log := hlog
  peek := hpeek
  binary := hbin

theorem report_chars (text : Bool) (line : List UInt8) : (line.map (Source.char, ·)).flatMap (report text) =
    line.map fun c => (Source.char, (cr c).toNat) :=
  (List.flatMap_map _ _ _).trans List.map_eq_flatMap.symm

theorem report_bytes (bytes : List UInt8) : (bytes.map (Source.file, ·)).flatMap (report false) =
    bytes.map (Source.file, ·.toNat) := by
  rw [List.flatMap_map, List.map_eq_flatMap]
  refine List.flatMap_congr fun b _ => ?_
  rw [report, if_neg fun h => Bool.false_ne_true h.1]

/-- Characters read from the descriptor: there are none of them while a service keeps a byte. -/
theorem Advance.line {line rest : List UInt8} (hin : s.input = line ++ rest) (hpeek : s.peek = held.map cr)
    (hheld : s.peek.isSome → line = []) (hkept : s.pending.isSome → line = []) :
    Advance text s (line.map fun c => (Source.char, (cr c).toNat)) ⟨⟨s.pending, rest⟩, s.peek⟩ held
      (line.map (Source.char, ·)) held := by
  refine .read .char hin hpeek hheld ?_ fun _ h => h
  rw [report_chars, keptLog]
  cases hpending : s.pending with
  | none => exact (List.append_nil _).symm
  | some b =>
    rw [hkept (by rw [hpending]; rfl)]
    rfl

/-- The character, if any, that a call reads with `readByte`. -/
theorem Advance.readByte {g : List (Source × Nat)} (hpeek : s.peek = held.map cr)
    (hheld : s.peek.isSome → s.input = []) (hkept : s.pending.isSome → s.input = [])
    (hg : g = (s.input.take 1).map fun c => (Source.char, (cr c).toNat)) :
    ∃ taken held', Advance text s g s.readByte.2 held taken held' := by
  have hnone : s.input = [] → s.input.take 1 = [] := fun h => by rw [h]; rfl
  have hin : s.input = s.input.take 1 ++ s.input.tail := by
    rw [← List.drop_one]
    exact (List.take_append_drop 1 _).symm
  rw [hg]
  exact ⟨_, _, .line hin hpeek (fun h => hnone (hheld h)) fun h => hnone (hkept h)⟩

theorem cr_cr (c : UInt8) : cr (cr c) = cr c := by
  by_cases h : c = 0x0A
  · rw [h]
    rfl
  · rw [show cr c = c from if_neg h, show cr c = c from if_neg h]

/-- The byte INT 16h has looked at is the next one. -/
theorem Advance.fromPeek {c : UInt8} (hkept : s.pending = .none) :
    Advance text s [(Source.char, (cr c).toNat)] { s with peek := .none } (some c) [(Source.char, c)] .none where
  bytes := rfl
  log := by
    rw [keptLog, keptLog, hkept]
    rfl
  peek := rfl
  binary := fun _ h => h

/-- AL of a call that reads with `readByte`. -/
theorem gives_readByte {al : Nat} (h : ∀ c, s.input.head? = some c → al = (cr c).toNat) :
    (if s.input = [] then [] else [(Source.char, al)]) = (s.input.take 1).map fun c => (Source.char, (cr c).toNat) := by
  cases hinput : s.input with
  | nil => rfl
  | cons c input =>
    rw [if_neg (List.cons_ne_nil _ _), h c (by rw [hinput]; rfl)]
    rfl

/-- INT 16h AH=00 gives the byte that was looked at, or reads one. -/
theorem int16_00_cases (m : Machine) (s : ConsoleIn) :
    (int16_00 m s).1.r8l .eax = (cr ((s.peek.or s.input.head?).getD 0x1B)).toNat ∧
      (int16_00 m s).2 = if s.peek.isSome then { s with peek := none } else s.readByte.2 := by
  unfold int16_00
  rw [r8l_setKey]
  cases s.peek with
  | none => exact ⟨rfl, rfl⟩
  | some c => exact ⟨rfl, rfl⟩

theorem int16_00_advance {m : Machine} (hpeek : s.peek = held.map cr) (hcare : Careful text s (.int16_00 m)) :
    ∃ taken held', Advance text s (Call.gives text s (.int16_00 m)) (int16_00 m s).2 held taken held' := by
  obtain ⟨hal, hleft⟩ := int16_00_cases m s
  have hgives : Call.gives text s (.int16_00 m) =
      if s.peek = none ∧ s.input = [] then [] else [(.char, (int16_00 m s).1.r8l .eax)] := rfl
  rw [hgives, hal, hleft]
  cases held with
  | some c =>
    replace hpeek : s.peek = some (cr c) := hpeek
    have hnone : s.pending = none := Option.not_isSome_iff_eq_none.mp fun h => by
      have hfrom := (hcare.kept h rfl).1
      rw [Call.fromPeek, hpeek] at hfrom
      cases hfrom
    have hbyte : (cr (((some (cr c)).or s.input.head?).getD 0x1B)) = cr c := cr_cr c
    rw [if_neg (fun h => by rw [hpeek] at h; cases h.1), hpeek, if_pos (by rfl), hbyte]
    exact ⟨_, _, Advance.fromPeek hnone⟩
  | none =>
    replace hpeek : s.peek = none := hpeek
    have hasks : Call.asks text s (.int16_00 m) := by
      rw [Call.asks, hpeek]
      rfl
    have hbyte : (if s.peek = none ∧ s.input = [] then [] else
        [(Source.char, (cr ((s.peek.or s.input.head?).getD 0x1B)).toNat)]) =
          (s.input.take 1).map fun c => (Source.char, (cr c).toNat) := by
      simp only [hpeek, true_and, Option.none_or]
      exact gives_readByte fun c hc => by rw [hc, Option.getD_some]
    rw [hbyte, if_neg (by rw [hpeek]; exact Bool.false_ne_true)]
    exact Advance.readByte hpeek (fun h => hcare.peeked h hasks) (fun h => (hcare.kept h rfl).2 hasks) rfl

/-- INT 16h AH=01 gives nothing; the byte it reads ahead is held. -/
theorem int16_01_advance {m : Machine} {ready : Bool} (hpeek : s.peek = held.map cr) :
    ∃ taken held', Advance text s [] (int16_01 m ready s).2 held taken held' := by
  have hfill : (int16_01 m ready s).2 = fillPeek ready s := by
    unfold int16_01
    dsimp only
    split <;> rfl
  rw [hfill]
  obtain ⟨⟨pending, input⟩, peek⟩ := s
  obtain rfl : peek = held.map cr := hpeek
  cases held with
  | some c => exact ⟨_, _, Advance.none rfl⟩
  | none =>
    cases ready with
    | false => exact ⟨_, _, Advance.none rfl⟩
    | true =>
      refine ⟨[], input.head?, ?_, List.append_nil _, rfl, fun _ h => h⟩
      cases input <;> rfl

theorem int21_01_advance {m : Machine} (hpeek : s.peek = held.map cr) (hcare : Careful text s (.int21_01 m)) :
    ∃ taken held', Advance text s (Call.gives text s (.int21_01 m)) (int21_01 m s).2 held taken held' := by
  refine Advance.readByte hpeek (fun h => hcare.peeked h rfl) (fun h => (hcare.kept h rfl).2 rfl) ?_
  refine gives_readByte fun c hc => ?_
  rw [Call.serve, int21_01, ConsoleIn.readByte, hc]
  exact r8l_setByte m _

theorem int21_06_advance {m : Machine} {ready : Bool} (hpeek : s.peek = held.map cr)
    (hcare : Careful text s (.int21_06 m ready)) :
    ∃ taken held', Advance text s (Call.gives text s (.int21_06 m ready)) (int21_06 m ready s).2 held taken held' := by
  have hgives : Call.gives text s (.int21_06 m ready) =
      if ready = false ∨ s.input = [] then [] else [(.char, (int21_06 m ready s).1.r8l .eax)] := rfl
  rw [hgives]
  cases ready with
  | false =>
    rw [if_pos (Or.inl rfl)]
    exact ⟨_, _, Advance.none hpeek⟩
  | true =>
    have hleft : (int21_06 m true s).2 = s.readByte.2 := by
      rw [int21_06, if_pos rfl]
      split <;> next heq => rw [heq]
    rw [hleft]
    refine Advance.readByte hpeek (fun h => hcare.peeked h rfl) (fun h => (hcare.kept h rfl).2 rfl) ?_
    simp only [Bool.true_eq_false, false_or]
    refine gives_readByte fun c hc => ?_
    rw [int21_06, if_pos rfl, ConsoleIn.readByte, hc]
    exact r8l_setByte m _

theorem int21_0A_advance {m : Machine} (hpeek : s.peek = held.map cr) (hcare : Careful text s (.int21_0A m)) :
    ∃ taken held', Advance text s (Call.gives text s (.int21_0A m)) (int21_0A m s).2 held taken held' := by
  obtain ⟨rest, hrest⟩ := lineOf_isPrefix (readb m.mem (dosArgAddr m .ds .edx) - 1) s.input
  have hgives : Call.gives text s (.int21_0A m) = (lineTaken m s).map fun c => (Source.char, (cr c).toNat) := by
    refine (congrArg (List.map (Source.char, ·)) (lineGiven_eq m s)).trans ?_
    exact List.map_map
  have hleft : s.input.drop (lineTaken m s).length = rest :=
    (congrArg (List.drop _) hrest.symm).trans List.drop_left
  have hnone : (Call.asks text s (.int21_0A m) → s.input = []) → lineTaken m s = [] := fun h => by
    by_cases hroom : 2 ≤ readb m.mem (dosArgAddr m .ds .edx)
    · refine List.prefix_nil.mp ?_
      rw [← h (decide_eq_true hroom)]
      exact lineOf_isPrefix _ _
    · rw [lineTaken, show readb m.mem (dosArgAddr m .ds .edx) - 1 = 0 by omega]
      rfl
  rw [hgives, int21_0A_input, hleft]
  exact ⟨_, _, Advance.line hrest.symm hpeek (fun h => hnone (hcare.peeked h)) fun h => hnone (hcare.kept h rfl).2⟩

/-- Without room behind what is kept back a text read takes nothing from the stream. -/
theorem readText_noRoom {n : Nat} {s : TextIn} (h : n ≤ s.pending.toList.length) : (readText n s).2.input = s.input := by
  obtain ⟨pending, input⟩ := s
  cases n with
  | zero => rfl
  | succ n =>
    cases pending with
    | none => cases h
    | some b =>
      obtain rfl : n = 0 := Nat.le_zero.mp (Nat.le_of_succ_le_succ h)
      rfl

theorem returned_bytes {m : Machine} {k : Nat} {bytes : List UInt8} (hbx : m.bx = 0)
    (hlen : bytes.length ≤ readCount m) :
    TextRead.returned m (int21_3F m ⟨k, bytes.map UInt8.toNat, false⟩).1 = bytes.map UInt8.toNat := by
  refine returned_3F hbx rfl (by rw [List.length_map]; exact hlen) fun b hb => ?_
  obtain ⟨c, -, rfl⟩ := List.mem_map.mp hb
  exact c.toNat_lt

theorem int21_3F_advance {m : Machine} (hbx : m.bx = 0) (hpeek : s.peek = held.map cr)
    (hbin : text = false → s.pending = none) (hcare : Careful text s (.int21_3F m)) :
    ∃ taken held', Advance text s (Call.gives text s (.int21_3F m)) (int21_3F_stdin text m s).2 held taken held' := by
  cases text with
  | false =>
    have hgives : Call.gives false s (.int21_3F m) = (s.input.take (readCount m)).map (Source.file, ·.toNat) := by
      have hout := @returned_bytes m (s.input.take (readCount m)).length (s.input.take (readCount m)) hbx
        (List.length_take_le _ _)
      refine (List.append_nil _).trans ((congrArg (List.map (Source.file, ·)) hout).trans ?_)
      exact List.map_map
    have hnone : s.peek.isSome → s.input.take (readCount m) = [] := fun h => by
      by_cases hroom : 0 < readCount m
      · rw [hcare.peeked h (decide_eq_true hroom)]
        exact List.take_nil
      · rw [Nat.eq_zero_of_not_pos hroom]
        rfl
    rw [hgives]
    refine ⟨_, _, Advance.read .file (List.take_append_drop _ _).symm hpeek hnone ?_ fun _ h => h⟩
    rw [report_bytes, keptLog, hbin rfl]
    exact (List.append_nil _).symm
  | true =>
    obtain ⟨taken, hinput, hlog⟩ := readText_report (readCount m) s.toTextIn
    have hleft : (int21_3F_stdin true m s).2 = ⟨(readText (readCount m) s.toTextIn).2, s.peek⟩ := rfl
    have htaken : s.input.take (s.input.length - (readText (readCount m) s.toTextIn).2.input.length) = taken := by
      rw [hinput, List.length_append, Nat.add_sub_cancel]
      exact List.take_left
    have hgives : Call.gives true s (.int21_3F m) = (readText (readCount m) s.toTextIn).1.map (Source.file, ·.toNat) ++
        (taken.filter (· = 0x1A)).map (Source.file, ·.toNat) := by
      have hout := @returned_bytes m (s.input.length - (readText (readCount m) s.toTextIn).2.input.length)
        (readText (readCount m) s.toTextIn).1 hbx (readText_length _ _)
      rw [← htaken]
      refine congrArg (· ++ _) ((congrArg (List.map (Source.file, ·)) hout).trans ?_)
      exact List.map_map
    have hnone : s.peek.isSome → taken = [] := fun h => by
      by_cases hroom : s.pending.toList.length < readCount m
      · have hnil := hcare.peeked h (decide_eq_true hroom)
        rw [hinput] at hnil
        exact (List.append_eq_nil_iff.mp hnil).1
      · have hsame := readText_noRoom (Nat.le_of_not_lt hroom)
        rw [hsame] at hinput
        exact List.self_eq_append_left.mp hinput
    rw [hgives, hleft]
    exact ⟨_, _, Advance.read .file hinput hpeek hnone hlog fun h => by cases h⟩

theorem call_advance {c : Call} (hstdin : c.OnStdin) (hpeek : s.peek = held.map cr)
    (hbin : text = false → s.pending = none) (hcare : Careful text s c) :
    ∃ taken held', Advance text s (c.gives text s) (c.serve text s).2 held taken held' := by
  cases c with
  | int16_00 m => exact int16_00_advance hpeek hcare
  | int16_01 m ready => exact int16_01_advance hpeek
  | int21_01 m => exact int21_01_advance hpeek hcare
  | int21_06 m ready => exact int21_06_advance hpeek hcare
  | int21_0A m => exact int21_0A_advance hpeek hcare
  | int21_3F m => exact int21_3F_advance hstdin hpeek hbin hcare

end Calls

/-! ### All calls -/

/-- All that was read is in the log, but for what the services keep. -/
def Ordered (text : Bool) (stream : List UInt8) (w : World) : Prop :=
  (text = false → w.console.pending = none) ∧ ∃ (reads : List (Source × UInt8)) (held : Option UInt8),
    stream = reads.map Prod.snd ++ (held.toList ++ w.console.input) ∧
      w.log ++ keptLog w.console = reads.flatMap (report text) ∧ w.console.peek = held.map cr

section Runs

variable {text : Bool} {stream : List UInt8}

theorem start_ordered (text : Bool) (stream : List UInt8) : Ordered text stream (startWorld stream) :=
  ⟨fun _ => rfl, [], none, rfl, rfl, rfl⟩

theorem Ordered.step {w w' : World} {c : Call} (h : Ordered text stream w) (hcare : Careful text w.console c)
    (hstep : consoleStep text w c w') : Ordered text stream w' := by
  obtain ⟨hbin, reads, held, hstream, hlog, hpeek⟩ := h
  obtain ⟨hstdin, rfl⟩ := hstep
  obtain ⟨taken, held', hadv⟩ := call_advance hstdin hpeek hbin hcare
  refine ⟨fun ht => hadv.binary ht (hbin ht), reads ++ taken, held', ?_, ?_, hadv.peek⟩
  · rw [hstream, hadv.bytes, List.map_append, List.append_assoc]
    rfl
  · rw [List.flatMap_append, ← hlog, List.append_assoc, hadv.log, World.next, List.append_assoc]

theorem Ordered.inOrder {w : World} (h : Ordered text stream w) : InOrder text stream w.log := by
  obtain ⟨-, reads, held, hstream, hlog, -⟩ := h
  exact ⟨reads, ⟨_, hstream.symm⟩, ⟨_, hlog⟩⟩

/-- **Standard input in order.**  In every run of the services none of which goes past a byte that another one keeps,
    what was given is the stream from its start on, each byte once. -/
theorem consoleReads_inOrder {w : World} {calls : List Call}
    (hrun : Guarded (consoleStep text) (fun w c => Careful text w.console c) (startWorld stream) calls w) :
    InOrder text stream w.log :=
  (hrun.invariant (fun _ _ _ h hcare hstep => h.step hcare hstep) (start_ordered text stream)).inOrder

end Runs

instance (text : Bool) (s : ConsoleIn) (c : Call) : Decidable (Careful text s c) :=
  decidable_of_iff ((s.peek.isSome → c.asks text s → s.input = []) ∧
      (s.pending.isSome → c.givesChars → c.fromPeek s = false ∧ (c.asks text s → s.input = [])))
    ⟨fun h => ⟨h.1, h.2⟩, fun h => ⟨h.peeked, h.kept⟩⟩

/-- A key looked at and then taken, a line end in two reads of one byte, and a character. -/
theorem consoleReads_inOrder_line : InOrder true [0x41, 0x0A, 0x42]
    [(.char, 0x41), (.file, 0x0D), (.file, 0x0A), (.char, 0x42)] := by
  have hbx : oneByte.bx = 0 := by decide +kernel
  have hrun : Guarded (consoleStep true) (fun w c => Careful true w.console c) (startWorld [0x41, 0x0A, 0x42])
      [.int16_01 bootMachine true, .int16_00 bootMachine, .int21_3F oneByte, .int21_3F oneByte, .int21_01 bootMachine]
      ⟨⟨⟨none, []⟩, none⟩, [(.char, 0x41), (.file, 0x0D), (.file, 0x0A), (.char, 0x42)]⟩ :=
    .cons (by decide +kernel) ⟨trivial, rfl⟩ (.cons (by decide +kernel) ⟨trivial, rfl⟩
      (.cons (by decide +kernel) ⟨hbx, rfl⟩ (.cons (by decide +kernel) ⟨hbx, rfl⟩
        (.cons (by decide +kernel) ⟨trivial, by decide +kernel⟩ (.nil _)))))
  exact consoleReads_inOrder hrun

/-- INT 16h AH=01 looks at the first byte, and AH=08 gives the second. -/
theorem consoleReads_swapped : ¬ ∀ (text : Bool) (stream : List UInt8) (calls : List Call) (w : World),
    Run (consoleStep text) (startWorld stream) calls w → InOrder text stream w.log := by
  intro h
  have hrun : Run (consoleStep false) (startWorld [0x41, 0x42]) [.int16_01 bootMachine true, .int21_01 bootMachine] _ :=
    .cons ⟨trivial, rfl⟩ (.cons ⟨trivial, rfl⟩ (.nil _))
  obtain ⟨reads, hreads, hlog⟩ := h _ _ _ _ hrun
  have hsecond : (((startWorld [0x41, 0x42]).next false (.int16_01 bootMachine true)).next false
      (.int21_01 bootMachine)).log = [(Source.char, 0x42)] := by
    decide +kernel
  rw [hsecond] at hlog
  cases reads with
  | nil => exact absurd hlog (by decide)
  | cons r reads =>
    obtain ⟨src, b⟩ := r
    obtain rfl : b = 0x41 := (List.cons_prefix_cons.mp hreads).1
    cases src with
    | char => cases (List.cons_prefix_cons.mp hlog).1
    | file => cases (List.cons_prefix_cons.mp hlog).1

end Dosiz.ConsoleInput
