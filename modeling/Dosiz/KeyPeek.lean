/-
  Dosiz/KeyPeek.lean
  ==================
  **Looking at a key and taking it** (`dosiz_int16` of `bridge.cc`).

  With a window the keys come from the ring of the BIOS data area, without one from standard input.  From the ring,
  AH=00 takes what AH=01 has shown.  From standard input the two make up the scan code each for itself, and AH=01 has
  none for the Enter key (`keyReads_agree_iff`).
-/
import Dosiz.ConsoleInput
import Dosiz.KeyRing

namespace Dosiz.KeyPeek

open ByteMemory Machine TracedMemory Transition Gates ConsoleInput KeyRing
open RingQueue (Ring put_append)

/-! ### The services with a window -/

/-- What the host does while AH=00 waits: keys that are typed, and the window closed. -/
structure Round where
  keys : List UInt16
  shutdown : Bool

def pushAll (t : Traced) (keys : List UInt16) : Traced := keys.foldl kbdRingPush t

/-- AH=00 with a key in the ring. -/
def takeKey (m : Machine) : Option Machine :=
  let r := kbdRingPop (.start m.mem)
  r.1.map fun key => (m.setMem r.2.mem).setR16 .eax key.toNat

/-- AH=00 and AH=10; `none` is a call that still waits. -/
def int16_00_ring (m : Machine) : List Round → Option Machine
  | [] => takeKey m
  | round :: rounds =>
    match takeKey m with
    | some m' => some m'
    | none =>
      let m := m.setMem (pushAll (.start m.mem) round.keys).mem
      if round.shutdown then some (m.setR16 .eax 0x011B) else int16_00_ring m rounds

/-- AH=01 and AH=11. -/
def int16_01_ring (m : Machine) : Machine :=
  match kbdRingPeek (.start m.mem) with
  | some key => callbackSzf (m.setR16 .eax key.toNat) false
  | none => callbackSzf m true

/-! ### Runs -/

structure KeyState where
  m : Machine
  console : ConsoleIn

/-- AH=01 and what it reports in AX, if it does; AH=00 and its AX; another call of standard input; a key that is
    typed; or anything else the program does. -/
inductive KeyEvent where
  | check (ready : Bool) (r : Option Nat)
  | read (rounds : List Round) (ax : Nat)
  | stdin (c : Call)
  | host (key : UInt16)
  | guest

/-- AX, if the caller finds ZF clear. -/
def reported (m : Machine) : Option Nat :=
  if (readb m.mem (callbackFlagAddr m)).testBit 6 then none else some m.ax

def Call.isInt16 : Call → Bool
  | .int16_00 _ | .int16_01 _ _ => true
  | _ => false

/-- A step; `display` is `g_display_open`.  A program that gets its keys from the ring leaves it alone, its stack
    included. -/
def keyStep (display text : Bool) (s : KeyState) : KeyEvent → KeyState → Prop
  | .check ready r, s' =>
    r = reported s'.m ∧
      if display then callbackFlagAddr s.m ∉ ringArea ∧ s' = { s with m := int16_01_ring s.m }
      else s' = ⟨(int16_01 s.m ready s.console).1, (int16_01 s.m ready s.console).2⟩
  | .read rounds ax, s' =>
    ax = s'.m.ax ∧
      if display then int16_00_ring s.m rounds = some s'.m ∧ s'.console = s.console
      else s' = ⟨(int16_00 s.m s.console).1, (int16_00 s.m s.console).2⟩
  | .stdin c, s' => Call.isInt16 c = false ∧ s' = { s with console := (c.serve text s.console).2 }
  | .host key, s' => s' = { s with m := s.m.setMem (kbdRingPush (.start s.m.mem) key).mem }
  | .guest, s' => (display = true → ∀ a ∈ ringArea, s'.m.mem a = s.m.mem a) ∧ s'.console = s.console

def startKeys (m : Machine) (stream : List UInt8) : KeyState :=
  ⟨m.setMem (kbdRingInit (.start m.mem)).mem, ⟨⟨none, stream⟩, none⟩⟩

/-! ### What is promised -/

/-- The key that AH=01 has reported since the last AH=00. -/
def KeyEvent.known (known : Option Nat) : KeyEvent → Option Nat
  | .check _ r => r.or known
  | .read _ _ => none
  | _ => known

/-- A key that has been reported is reported again, and is what AH=00 returns. -/
def KeyEvent.Keeps (known : Option Nat) : KeyEvent → Prop
  | .check _ r => ∀ ax ∈ known, r = some ax
  | .read _ ax => ∀ key ∈ known, ax = key
  | _ => True

def Agrees : Option Nat → List KeyEvent → Prop
  | _, [] => True
  | known, e :: es => e.Keeps known ∧ Agrees (e.known known) es

/-- AH=00 does not come to an Enter key that AH=01 has looked at on standard input. -/
def NoEnter (display : Bool) (s : KeyState) : KeyEvent → Prop
  | .read _ _ => display = true ∨ s.console.peek ≠ some 0x0D
  | _ => True

/-! ### The key in AX -/

section Registers

variable {m : Machine}

theorem ax_setKey (c : UInt8) {scan : Nat} (hscan : scan < 256) : (setKey m c scan).ax = c.toNat + 256 * scan := by
  have hlt := m.r32_lt .eax
  have hc := c.toNat_lt
  simp only [ax, r16, setKey, setR8l, setR8h, r32_setR32]
  omega

theorem callbackFlagAddr_setEax (v : Nat) : callbackFlagAddr (m.setR32 .eax v) = callbackFlagAddr m := by
  rw [callbackFlagAddr, callbackFlagAddr, sp, sp, r16, r16, r32_setR32_of_ne m v (by decide)]
  rfl

theorem reported_callbackSzf (val : Bool) : reported (callbackSzf m val) = if val then none else some m.ax := by
  have hbit : (readb (callbackSzf m val).mem (callbackFlagAddr m)).testBit 6 = val := by
    rw [show callbackSzf m val = FlagHelper.callbackSzf.apply m val from rfl, FlagHelper.apply_mem]
    exact (editFlag_bit m.mem (callbackFlagAddr m) (by decide) val (by decide)).trans (if_pos rfl)
  rw [reported, show callbackFlagAddr (callbackSzf m val) = callbackFlagAddr m from rfl, hbit]
  rfl

theorem callbackSzf_ring {val : Bool} (hframe : callbackFlagAddr m ∉ ringArea) :
    ∀ a ∈ ringArea, (callbackSzf m val).mem a = m.mem a := by
  intro a ha
  rw [show callbackSzf m val = FlagHelper.callbackSzf.apply m val from rfl, FlagHelper.apply_mem]
  exact editFlag_off_byte m.mem (callbackFlagAddr m) (by decide) val a fun h => hframe (h ▸ ha)

end Registers

/-! ### Keys from standard input -/

section Stdin

variable {s : ConsoleIn} {m : Machine} {c : UInt8}

/-- AX for the byte that AH=01 has looked at. -/
def peekedAx (c : UInt8) : Nat := c.toNat + 256 * (letterScan c).getD 0x01

theorem letterScan_lt {scan : Nat} (h : letterScan c = some scan) : scan < 256 := by
  have hc := c.toNat_lt
  simp only [letterScan] at h
  split_ifs at h with h₁ h₂
  · cases h
    omega
  · cases h
    omega

theorem scan_lt {other : Nat} (hother : other < 256) : (letterScan c).getD other < 256 := by
  cases h : letterScan c with
  | none => exact hother
  | some scan => exact letterScan_lt h

/-- AH=01 reports the byte that it keeps. -/
theorem int16_01_reported (m : Machine) (ready : Bool) (s : ConsoleIn) :
    reported (int16_01 m ready s).1 = (fillPeek ready s).peek.map peekedAx ∧
      (int16_01 m ready s).2 = fillPeek ready s := by
  rw [int16_01]
  cases hpeek : (fillPeek ready s).peek with
  | none => exact ⟨reported_callbackSzf true, rfl⟩
  | some c =>
    refine ⟨(reported_callbackSzf false).trans ?_, rfl⟩
    exact congrArg some (ax_setKey c (scan_lt (by decide)))

theorem fillPeek_some (ready : Bool) (h : s.peek = some c) : fillPeek ready s = s := by
  rw [fillPeek, h]

theorem fillPeek_cr (ready : Bool) (h : s.peek = none) : ∀ c ∈ (fillPeek ready s).peek, cr c = c := by
  intro c hc
  rw [fillPeek, h] at hc
  cases ready with
  | false => rw [if_neg (by decide), h] at hc; cases hc
  | true =>
    rw [if_pos rfl] at hc
    obtain ⟨b, -, rfl⟩ := Option.map_eq_some_iff.mp hc
    exact cr_cr b

/-- AH=00 with a byte kept: the scan code of the Enter key is its own. -/
theorem int16_00_peeked (hpeek : s.peek = some c) (hcr : cr c = c) :
    (int16_00 m s).1.ax = c.toNat + 256 * (letterScan c).getD (if c = 0x0D then 0x1C else 0x01) ∧
      (int16_00 m s).2.peek = none := by
  have hscan : (if c = 0x0D then 0x1C else 0x01) < 256 := by split <;> decide
  rw [int16_00, hpeek]
  refine ⟨?_, rfl⟩
  dsimp only
  rw [Option.getD_some, hcr]
  exact ax_setKey c (scan_lt hscan)

theorem int16_00_unpeeked (hpeek : s.peek = none) : (int16_00 m s).2.peek = none := by
  rw [int16_00, hpeek]
  exact hpeek

/-- The two services agree on every byte but the Enter key. -/
theorem scans_agree_iff :
    c.toNat + 256 * (letterScan c).getD (if c = 0x0D then 0x1C else 0x01) = peekedAx c ↔ c ≠ 0x0D := by
  by_cases h : c = 0x0D
  · subst h
    decide
  · rw [if_neg h]
    exact iff_of_true rfl h

/-- The services of INT 21h do not know of the byte that INT 16h keeps. -/
theorem serve_peek (text : Bool) {call : Call} (h : Call.isInt16 call = false) :
    (call.serve text s).2.peek = s.peek := by
  cases call with
  | int16_00 m => cases h
  | int16_01 m ready => cases h
  | int21_01 m => rfl
  | int21_06 m ready =>
    obtain ⟨⟨pending, input⟩, peek⟩ := s
    cases ready with
    | false => rfl
    | true => cases input with
      | nil => rfl
      | cons b input => rfl
  | int21_0A m => rw [Call.serve, int21_0A_input]
  | int21_3F m => cases text with
    | true => rfl
    | false => rfl

end Stdin

/-! ### Keys from the ring -/

section Display

variable {m m' : Machine} {r : Ring 15 UInt16} {key : UInt16}

/-- A key at the head of the ring stays there while others are typed. -/
theorem peek_push (hpeek : r.peek = some key) (other : UInt16) : (r.push other).peek = some key := by
  rw [r.peek_eq] at hpeek
  rw [Ring.peek_eq, r.contents_push, ← put_append, List.head?_append, hpeek]
  rfl

theorem setR16_ax (m : Machine) (key : UInt16) : (m.setR16 .eax key.toNat).ax = key.toNat :=
  (r16_setR16 m .eax key.toNat).trans (Nat.mod_eq_of_lt key.toNat_lt)

/-- AH=01 reports the key at the head of the ring. -/
theorem int16_01_ring_reported (h : KeepsRing m.mem r) :
    reported (int16_01_ring m) = r.peek.map UInt16.toNat := by
  rw [int16_01_ring, kbdRingPeek_eq (t := .start m.mem) h]
  cases r.peek with
  | none => exact reported_callbackSzf true
  | some key =>
    refine (reported_callbackSzf false).trans ?_
    exact congrArg some (setR16_ax m key)

theorem int16_01_ring_keeps (h : KeepsRing m.mem r) (hframe : callbackFlagAddr m ∉ ringArea) :
    KeepsRing (int16_01_ring m).mem r := by
  rw [int16_01_ring]
  cases kbdRingPeek (.start m.mem) with
  | none => exact h.congr (callbackSzf_ring hframe)
  | some key =>
    have hframe' : callbackFlagAddr (m.setR16 .eax key.toNat) ∉ ringArea := by
      rwa [setR16, callbackFlagAddr_setEax]
    exact KeepsRing.congr (m := (m.setR16 .eax key.toNat).mem) h (callbackSzf_ring hframe')

theorem takeKey_keeps (h : KeepsRing m.mem r) (htake : takeKey m = some m') : KeepsRing m'.mem r.pop := by
  obtain ⟨key, -, rfl⟩ := Option.map_eq_some_iff.mp htake
  exact kbdRingPop_keeps (t := .start m.mem) h

/-- AH=00 takes the key at the head of the ring. -/
theorem takeKey_ax (h : KeepsRing m.mem r) (hpeek : r.peek = some key) :
    ∃ m', takeKey m = some m' ∧ m'.ax = key.toNat := by
  have hpop : (kbdRingPop (.start m.mem)).1 = some key := by
    rw [kbdRingPop_fst, kbdRingPeek_eq (t := .start m.mem) h, hpeek]
  refine ⟨_, by rw [takeKey, hpop]; rfl, setR16_ax _ key⟩

theorem pushAll_keeps : ∀ (keys : List UInt16) {t : Traced} {r : Ring 15 UInt16},
    KeepsRing t.mem r → ∃ r', KeepsRing (pushAll t keys).mem r'
  | [], _, r, h => ⟨r, h⟩
  | key :: keys, _, _, h => pushAll_keeps keys (kbdRingPush_keeps h key)

theorem int16_00_ring_keeps : ∀ {rounds : List Round} {m : Machine} {r : Ring 15 UInt16}, KeepsRing m.mem r →
    int16_00_ring m rounds = some m' → ∃ r', KeepsRing m'.mem r' := by
  intro rounds
  induction rounds with
  | nil => exact fun h hread => ⟨_, takeKey_keeps h hread⟩
  | cons round rounds ih =>
    intro m r h hread
    cases htake : takeKey m with
    | some taken =>
      rw [int16_00_ring, htake] at hread
      cases hread
      exact ⟨_, takeKey_keeps h htake⟩
    | none =>
      obtain ⟨r₁, h₁⟩ := pushAll_keeps round.keys (t := .start m.mem) h
      rw [int16_00_ring, htake] at hread
      dsimp only at hread
      cases hshut : round.shutdown with
      | true =>
        rw [hshut, if_pos rfl] at hread
        cases hread
        exact ⟨r₁, h₁⟩
      | false =>
        rw [hshut, if_neg (by decide)] at hread
        exact ih h₁ hread

theorem int16_00_ring_ax {rounds : List Round} (h : KeepsRing m.mem r) (hpeek : r.peek = some key)
    (hread : int16_00_ring m rounds = some m') : m'.ax = key.toNat := by
  obtain ⟨taken, htake, hax⟩ := takeKey_ax h hpeek
  cases rounds with
  | nil =>
    rw [int16_00_ring, htake] at hread
    cases hread
    exact hax
  | cons round rounds =>
    rw [int16_00_ring, htake] at hread
    cases hread
    exact hax

end Display

/-! ### One step -/

/-- What has been reported is what the source has in front: the byte that is kept, or the head of the ring. -/
def KeyOk (display : Bool) (known : Option Nat) (s : KeyState) : Prop :=
  if display then
    ∃ r : Ring 15 UInt16, KeepsRing s.m.mem r ∧ ∀ ax ∈ known, ∃ key, r.peek = some key ∧ ax = key.toNat
  else known = s.console.peek.map peekedAx ∧ ∀ c ∈ s.console.peek, cr c = c

section Steps

variable {text : Bool} {known : Option Nat} {s s' : KeyState} {e : KeyEvent}

theorem keyOk_empty (hpeek : s.console.peek = none) : KeyOk false none s := by
  dsimp only [KeyOk]
  rw [hpeek]
  exact ⟨rfl, fun _ hc => by cases hc⟩

theorem keyStep_stdin (h : KeyOk false known s) (hstep : keyStep false text s e s') :
    (e.Keeps known ↔ NoEnter false s e) ∧ KeyOk false (e.known known) s' := by
  obtain ⟨rfl, hcr⟩ := h
  cases e with
  | check ready r =>
    obtain ⟨rfl, rfl⟩ := hstep
    obtain ⟨hreported, hconsole⟩ := int16_01_reported s.m ready s.console
    dsimp only [KeyEvent.Keeps, KeyEvent.known, KeyOk]
    rw [hreported, hconsole]
    cases hpeek : s.console.peek with
    | none =>
      refine ⟨iff_of_true (fun _ hnone => by cases hnone) trivial, ?_, fillPeek_cr ready hpeek⟩
      exact Option.or_none
    | some c =>
      rw [fillPeek_some ready hpeek, hpeek]
      refine ⟨iff_of_true (fun _ hax => hax) trivial, rfl, ?_⟩
      rwa [hpeek] at hcr
  | read rounds ax =>
    obtain ⟨rfl, rfl⟩ := hstep
    cases hpeek : s.console.peek with
    | none =>
      have hfree : NoEnter false s (.read rounds (int16_00 s.m s.console).1.ax) := .inr (by rw [hpeek]; decide)
      exact ⟨iff_of_true (fun _ hnone => by cases hnone) hfree, keyOk_empty (int16_00_unpeeked (m := s.m) hpeek)⟩
    | some c =>
      obtain ⟨hax, hleft⟩ := int16_00_peeked (m := s.m) hpeek (hcr c hpeek)
      refine ⟨?_, keyOk_empty hleft⟩
      dsimp only [KeyEvent.Keeps, NoEnter]
      rw [hax, hpeek]
      constructor
      · exact fun h => .inr fun he => scans_agree_iff.mp (h _ rfl) (Option.some.inj he)
      · rintro h _ ⟨⟩
        exact scans_agree_iff.mpr fun he => h.resolve_left (by decide) (congrArg some he)
  | stdin call =>
    obtain ⟨hcall, rfl⟩ := hstep
    have hpeek := serve_peek (s := s.console) text hcall
    refine ⟨iff_of_true trivial trivial, ?_, ?_⟩
    · dsimp only [KeyEvent.known]
      rw [hpeek]
    · dsimp only
      rwa [hpeek]
  | host key =>
    cases hstep
    exact ⟨iff_of_true trivial trivial, rfl, hcr⟩
  | guest =>
    obtain ⟨-, hconsole⟩ := hstep
    refine ⟨iff_of_true trivial trivial, ?_⟩
    dsimp only [KeyEvent.known, KeyOk]
    rw [hconsole]
    exact ⟨rfl, hcr⟩

theorem keyStep_ring (h : KeyOk true known s) (hstep : keyStep true text s e s') :
    e.Keeps known ∧ KeyOk true (e.known known) s' := by
  obtain ⟨r, hring, hknown⟩ := h
  cases e with
  | check ready shown =>
    obtain ⟨rfl, hframe, rfl⟩ := hstep
    have hreported := int16_01_ring_reported hring
    have hkeeps := int16_01_ring_keeps hring hframe
    dsimp only [KeyEvent.Keeps, KeyEvent.known]
    rw [hreported]
    cases hpeek : r.peek with
    | none =>
      have hnone : ∀ ax, ax ∉ known := fun ax hax => by
        obtain ⟨key, hkey, -⟩ := hknown ax hax
        rw [hpeek] at hkey
        cases hkey
      exact ⟨fun ax hax => absurd hax (hnone ax), r, hkeeps, fun ax hax => absurd hax (hnone ax)⟩
    | some key =>
      refine ⟨fun ax hax => ?_, r, hkeeps, ?_⟩
      · obtain ⟨key', hkey, rfl⟩ := hknown ax hax
        rw [hpeek] at hkey
        rw [← Option.some.inj hkey]
        rfl
      · rintro _ ⟨⟩
        exact ⟨key, hpeek, rfl⟩
  | read rounds ax =>
    obtain ⟨rfl, hread, -⟩ := hstep
    obtain ⟨r', hkeeps⟩ := int16_00_ring_keeps hring hread
    refine ⟨fun ax hax => ?_, r', hkeeps, fun _ hnone => by cases hnone⟩
    obtain ⟨key, hpeek, rfl⟩ := hknown ax hax
    exact int16_00_ring_ax hring hpeek hread
  | stdin call =>
    obtain ⟨-, rfl⟩ := hstep
    exact ⟨trivial, r, hring, hknown⟩
  | host key =>
    cases hstep
    refine ⟨trivial, r.push key, kbdRingPush_keeps (t := .start s.m.mem) hring key, fun ax hax => ?_⟩
    obtain ⟨first, hpeek, rfl⟩ := hknown ax hax
    exact ⟨first, peek_push hpeek key, rfl⟩
  | guest => exact ⟨trivial, r, hring.congr (hstep.1 rfl), hknown⟩

/-- A step keeps to what has been reported, but for an Enter key. -/
theorem keyStep_keeps {display : Bool} (h : KeyOk display known s) (hstep : keyStep display text s e s') :
    (e.Keeps known ↔ NoEnter display s e) ∧ KeyOk display (e.known known) s' := by
  cases display with
  | false => exact keyStep_stdin h hstep
  | true =>
    obtain ⟨hkeeps, hok⟩ := keyStep_ring h hstep
    have hfree : NoEnter true s e := by
      cases e with
      | read rounds ax => exact .inl rfl
      | _ => trivial
    exact ⟨iff_of_true hkeeps hfree, hok⟩

end Steps

/-! ### Peeks and reads agree -/

section Runs

variable {display text : Bool} {known : Option Nat} {s t : KeyState} {es : List KeyEvent}

theorem agrees_guarded (hrun : Run (keyStep display text) s es t) :
    ∀ {known : Option Nat}, KeyOk display known s → Agrees known es →
      Guarded (keyStep display text) (NoEnter display) s es t := by
  induction hrun with
  | nil s => exact fun _ _ => .nil s
  | cons hstep _ ih =>
    rintro known hok ⟨hkeeps, hrest⟩
    obtain ⟨hiff, hok'⟩ := keyStep_keeps hok hstep
    exact .cons (hiff.mp hkeeps) hstep (ih hok' hrest)

theorem guarded_agrees (hrun : Guarded (keyStep display text) (NoEnter display) s es t) :
    ∀ {known : Option Nat}, KeyOk display known s → Agrees known es := by
  induction hrun with
  | nil s => exact fun _ => trivial
  | cons hfree hstep _ ih =>
    intro known hok
    obtain ⟨hiff, hok'⟩ := keyStep_keeps hok hstep
    exact ⟨hiff.mpr hfree, ih hok'⟩

theorem startKeys_ok (display : Bool) (m : Machine) (stream : List UInt8) :
    KeyOk display none (startKeys m stream) := by
  cases display with
  | false => exact keyOk_empty rfl
  | true =>
    obtain ⟨r, hring, -⟩ := kbdRingInit_keeps (.start m.mem)
    exact ⟨r, hring, fun _ hnone => by cases hnone⟩

/-- **AH=01 and AH=00 agree on every key exactly when AH=00 meets no Enter key that AH=01 has looked at on standard
    input.**  With a window they always do. -/
theorem keyReads_agree_iff (display text : Bool) (m : Machine) (stream : List UInt8) (es : List KeyEvent) (t : KeyState)
    (hrun : Run (keyStep display text) (startKeys m stream) es t) :
    Agrees none es ↔ Guarded (keyStep display text) (NoEnter display) (startKeys m stream) es t :=
  ⟨agrees_guarded hrun (startKeys_ok display m stream), fun h => guarded_agrees h (startKeys_ok display m stream)⟩

end Runs

/-- What AH=01 leaves when it looks at the first byte of standard input. -/
def looked (stream : List UInt8) : KeyState :=
  let r := int16_01 (startKeys bootMachine stream).m true (startKeys bootMachine stream).console
  ⟨r.1, r.2⟩

/-- What AH=00 leaves behind that. -/
def taken (stream : List UInt8) : KeyState :=
  let r := int16_00 (looked stream).m (looked stream).console
  ⟨r.1, r.2⟩

/-- The key `a`. -/
theorem keyReads_agree_a : Agrees none [.check true (some 0x1E61), .read [] 0x1E61] := by
  have hcheck : keyStep false false (startKeys bootMachine [0x61]) (.check true (some 0x1E61)) (looked [0x61]) :=
    ⟨by decide +kernel, rfl⟩
  have hread : keyStep false false (looked [0x61]) (.read [] 0x1E61) (taken [0x61]) := ⟨by decide +kernel, rfl⟩
  have hfree : NoEnter false (looked [0x61]) (.read [] 0x1E61) := .inr (by decide +kernel)
  exact (keyReads_agree_iff false false bootMachine [0x61] _ _ (.cons hcheck (.single hread))).mpr
    (.cons trivial hcheck (.cons hfree hread (.nil _)))

/-- The Enter key: AH=01 shows 010Dh, and AH=00 gives 1C0Dh. -/
theorem keyReads_enter : ¬ ∀ (display text : Bool) (m : Machine) (stream : List UInt8) (es : List KeyEvent)
    (t : KeyState), Run (keyStep display text) (startKeys m stream) es t → Agrees none es := by
  intro h
  have hcheck : keyStep false false (startKeys bootMachine [0x0A]) (.check true (some 0x010D)) (looked [0x0A]) :=
    ⟨by decide +kernel, rfl⟩
  have hread : keyStep false false (looked [0x0A]) (.read [] 0x1C0D) (taken [0x0A]) := ⟨by decide +kernel, rfl⟩
  have hagrees := h _ _ _ _ _ _ (.cons hcheck (.single hread))
  exact absurd (hagrees.2.1 0x010D rfl) (by decide)

end Dosiz.KeyPeek
