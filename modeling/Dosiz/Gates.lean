/-
  Dosiz/Gates.lean
  ================
  **How a service is entered, and which FLAGS image it answers in.**

  A service is native code behind a stub.  The stub ends in an IRET or an IRETD, and the
  service reports CF or ZF by editing the FLAGS image that this instruction is about to
  pop (`set_cf` of `bridge.cc`, `CALLBACK_SZF` and `CALLBACK_SCF` of the compatibility
  layer).  The stubs differ in the width of their frame, and `set_cf` is told the width
  by the global `s_int_gate_bits32`, which only the two bits32 wrappers set.

  Entries nest: a service may run the guest, and the guest may enter further services
  before the first one is left.
-/
import Dosiz.FlagEdit
import Dosiz.Transition

namespace Dosiz.Gates

open ByteMemory Machine Transition

/-! ### The stubs -/

/-- The stub types dosiz installs. -/
inductive StubType where
  | CB_RETN | CB_RETF | CB_RETF8 | CB_IRETD | CB_INT21 | CB_IRET
deriving DecidableEq, Repr

/-- The native-call opcode with a callback number. -/
def native (cb : Nat) : List Nat := [0xFE, 0x38, cb % 256, cb / 256 % 256]

/-- `write_stub`: the bytes of a callback stub. -/
def writeStub (cb : Nat) : StubType → List Nat
  | .CB_RETN => native cb ++ [0xC3]
  | .CB_RETF => native cb ++ [0xCB]
  | .CB_RETF8 => native cb ++ [0xCA, 0x08, 0x00]
  | .CB_IRETD => native cb ++ [0x66, 0xCF]
  | .CB_INT21 =>
    0xFB :: native cb ++ [0xCF, 0xCB, 0x51, 0xB9, 0x40, 0x01, 0xE2, 0xFE, 0x59, 0xCF]
  | .CB_IRET => native cb ++ [0xCF]

/-- Vectors whose 32-bit frame has an error code on top. -/
def hasErr (v : Nat) : Bool := v = 8 || (10 ≤ v && v ≤ 14) || v = 17

/-- `add esp, 4` -/
def dropErrorCode : List Nat := [0x66, 0x83, 0xC4, 0x04]

/-- A reflection slot of the shim segment: the error code dropped where there is one, the native
    call, an IRETD, NOPs to the end of the slot. -/
def shimSlot (v cb : Nat) : List Nat :=
  let code := (if hasErr v then dropErrorCode else []) ++ (native cb) ++ [0x66, 0xCF]
  code ++ List.replicate (PM_SHIM_SLOT_BYTES - code.length) 0x90

/-- The ways into a service.  The INT 21h stub starts with an STI; every other service reached
    with a 16-bit frame has the plain IRET stub. -/
inductive Entry where
  | realMode (int21 : Bool)
  | gate16 (int21 : Bool)
  | gate32
  | shim (v : Nat)
  | int60Shim
deriving DecidableEq, Repr

/-- The code the CPU runs at the entry. -/
def Entry.code (cb : Nat) : Entry → List Nat
  | .realMode int21 | .gate16 int21 => writeStub cb (if int21 then .CB_INT21 else .CB_IRET)
  | .gate32 => writeStub cb .CB_IRETD
  | .shim v => shimSlot v cb
  | .int60Shim => shimSlot 0x60 cb

/-- What follows the native call. -/
def afterNative : List Nat → List Nat
  | 0xFE :: 0x38 :: _ :: _ :: rest => rest
  | _ :: rest => afterNative rest
  | [] => []

/-- The operand size, in bytes, of the interrupt return after the native call (the stubs lie in
    16-bit code segments). -/
def returnSize (code : List Nat) : Option Nat :=
  match afterNative code with
  | 0x66 :: 0xCF :: _ => some 4
  | 0xCF :: _ => some 2
  | _ => none

/-- The width of an entry's frame. -/
def Entry.size : Entry → Nat
  | .realMode _ | .gate16 _ => 2
  | .gate32 | .shim _ | .int60Shim => 4

/-- The entry is taken in protected mode. -/
def Entry.inPm : Entry → Bool
  | .realMode _ => false
  | _ => true

/-- The entry goes through `dosiz_int21_bits32` or `dosiz_int31_bits32`. -/
def Entry.wrapped : Entry → Bool
  | .gate32 => true
  | _ => false

/-- The stub at every entry returns with the entry's width. -/
theorem returnSize_code (cb : Nat) (e : Entry) : returnSize (e.code cb) = some e.size := by
  cases e with
  | realMode int21 => cases int21 <;> rfl
  | gate16 int21 => cases int21 <;> rfl
  | gate32 => rfl
  | int60Shim => rfl
  | shim v => cases h : hasErr v <;> simp [Entry.code, shimSlot, h] <;> rfl

/-! ### The flag helpers -/

/-- Where `CALLBACK_SZF` and `CALLBACK_SCF` look: `PhysMake(SegValue(ss), reg_sp + 4)`. -/
def callbackFlagAddr (m : Machine) : Nat := m.segVal .ss * 16 + (m.sp + 4) % 65536

/-- `CALLBACK_SZF` -/
def callbackSzf (m : Machine) (val : Bool) : Machine :=
  { m with mem := editFlag m.mem (callbackFlagAddr m) 0x0040 val }

/-- `CALLBACK_SCF` -/
def callbackScf (m : Machine) (val : Bool) : Machine :=
  { m with mem := editFlag m.mem (callbackFlagAddr m) 0x0001 val }

inductive FlagHelper where
  | setCf | callbackSzf | callbackScf
deriving DecidableEq, Repr

def FlagHelper.apply : FlagHelper → Machine → Bool → Machine
  | .setCf => Dosiz.setCf
  | .callbackSzf => Gates.callbackSzf
  | .callbackScf => Gates.callbackScf

/-- The bit of the FLAGS image the helper is for. -/
def FlagHelper.bit : FlagHelper → Nat
  | .callbackSzf => 6
  | _ => 0

/-- The address the helper edits. -/
def FlagHelper.addr (m : Machine) : FlagHelper → Nat
  | .setCf => flagsAddr m
  | _ => callbackFlagAddr m

theorem FlagHelper.bit_lt (h : FlagHelper) : h.bit < 8 := by cases h <;> decide

theorem FlagHelper.apply_mem (h : FlagHelper) (m : Machine) (val : Bool) :
    (h.apply m val).mem = editFlag m.mem (h.addr m) (BitVec.twoPow 16 h.bit) val := by
  have hzf : (0x0040 : BitVec 16) = BitVec.twoPow 16 6 := by decide
  cases h with
  | setCf => exact setCf_mem m val
  | callbackSzf => exact congrArg (fun k => editFlag m.mem (callbackFlagAddr m) k val) hzf
  | callbackScf => exact congrArg (fun k => editFlag m.mem (callbackFlagAddr m) k val) maskCf_eq

/-- The FLAGS image an interrupt return of this width pops: the third item on the stack. -/
def imageAddr (size : Nat) (m : Machine) : Nat :=
  lin (m.segPhys .ss + wrapStack m (stackOffset m + 2 * size))

/-! ### Nested entries -/

/-- An entry that has not been left, and what `s_int_gate_bits32` was before it. -/
structure Level where
  entry : Entry
  prev : Bool

/-- The machine and the unfinished entries, innermost first. -/
structure GateState where
  m : Machine
  levels : List Level

/-- An entry is taken, the innermost one is left, or anything else runs (the guest, a service). -/
inductive GateEvent where
  | enter (e : Entry) (m' : Machine)
  | leave (m' : Machine)
  | other (m' : Machine)

/-- The bits32 wrappers save `s_int_gate_bits32`, set it, and put it back; nothing else
    writes it. -/
def gateStep (s : GateState) (ev : GateEvent) (s' : GateState) : Prop :=
  match ev with
  | .enter e m' =>
    m'.intGateBits32 = (e.wrapped || s.m.intGateBits32) ∧
      s' = ⟨m', ⟨e, s.m.intGateBits32⟩ :: s.levels⟩
  | .leave m' =>
    ∃ l rest, s.levels = l :: rest ∧
      m'.intGateBits32 = (if l.entry.wrapped then l.prev else s.m.intGateBits32) ∧ s' = ⟨m', rest⟩
  | .other m' => m'.intGateBits32 = s.m.intGateBits32 ∧ s' = ⟨m', s.levels⟩

/-- Some bits32 wrapper is unfinished. -/
def wrapperLive (levels : List Level) : Bool := levels.any (·.entry.wrapped)

/-- Each level has saved what the levels below it make the flag. -/
def Saved : List Level → Prop
  | [] => True
  | l :: rest => l.prev = wrapperLive rest ∧ Saved rest

/-- The flag says whether a wrapper is unfinished. -/
structure FlagTracks (s : GateState) : Prop where
  flag : s.m.intGateBits32 = wrapperLive s.levels
  saved : Saved s.levels

theorem gateStep_tracks {s s' : GateState} {ev : GateEvent} (h : FlagTracks s)
    (hs : gateStep s ev s') : FlagTracks s' := by
  cases ev with
  | enter e m' =>
    obtain ⟨hflag, rfl⟩ := hs
    refine ⟨?_, h.flag, h.saved⟩
    rw [hflag, h.flag]
    rfl
  | leave m' =>
    obtain ⟨l, rest, hlevels, hflag, rfl⟩ := hs
    have hflag' := h.flag
    have hsaved := h.saved
    rw [hlevels] at hflag' hsaved
    refine ⟨?_, hsaved.2⟩
    rw [hflag, hflag']
    cases hw : l.entry.wrapped with
    | true => simpa using hsaved.1
    | false => simp [wrapperLive, hw]
  | other m' =>
    obtain ⟨hflag, rfl⟩ := hs
    exact ⟨hflag.trans h.flag, h.saved⟩

theorem run_tracks {m₀ : Machine} (h₀ : m₀.intGateBits32 = false) {es : List GateEvent}
    {s : GateState} (hrun : Run gateStep ⟨m₀, []⟩ es s) : FlagTracks s :=
  hrun.invariant (fun _ _ _ => gateStep_tracks) ⟨h₀, trivial⟩

/-! ### When a helper edits the image -/

/-- `set_cf` takes the width of the entry's frame: `outer` says that a bits32 wrapper is
    unfinished below the entry. -/
def RightWidth (outer : Bool) : Entry → Prop
  | .realMode _ | .gate32 => True
  | .gate16 _ => outer = false
  | .shim _ | .int60Shim => outer = true

/-- The frame does not wrap round the end of a 16-bit stack before its FLAGS image. -/
def NoWrap (size : Nat) (m : Machine) : Prop := m.cpu.stackBig = true ∨ m.sp + 2 * size < 65536

/-- The helper's address is the image's, in terms of the entry, the entries below and the stack. -/
def HitsImage (h : FlagHelper) (e : Entry) (outer : Bool) (m : Machine) : Prop :=
  match h with
  | .setCf => RightWidth outer e ∧ NoWrap e.size m
  | _ => m.segVal .ss * 16 + (m.sp + 4) % 65536 = imageAddr e.size m

theorem rightWidth_iff {e : Entry} {outer : Bool} :
    RightWidth outer e ↔ (if e.inPm && (e.wrapped || outer) then 8 else 4) = 2 * e.size := by
  cases e <;> cases outer <;> simp [RightWidth, Entry.inPm, Entry.wrapped, Entry.size]

/-- Two offsets past the stack pointer, one of them popped with the stack's wrap-around. -/
theorem offset_eq_iff (m : Machine) {a b : Nat} (ha : a ≤ 8) (hb : b ≤ 8) (size : Nat)
    (hsize : b = 2 * size) :
    lin (m.segPhys .ss + stackOffset m + a) = lin (m.segPhys .ss + wrapStack m (stackOffset m + b)) ↔
      a = b ∧ NoWrap size m := by
  have hsp := m.r16_lt .esp
  unfold NoWrap wrapStack stackOffset
  rw [← hsize]
  cases m.cpu.stackBig with
  | true =>
    simp only [if_true, true_or, and_true, lin]
    omega
  | false =>
    simp only [Bool.false_eq_true, if_false, false_or, lin, Machine.sp]
    omega

theorem addr_eq_image_iff {h : FlagHelper} {e : Entry} {outer : Bool} {m : Machine}
    (hmode : m.cpu.pmode = e.inPm) (hflag : m.intGateBits32 = (e.wrapped || outer)) :
    h.addr m = imageAddr e.size m ↔ HitsImage h e outer m := by
  cases h with
  | setCf =>
    have hsize : 2 * e.size ≤ 8 := by cases e <;> simp [Entry.size]
    have ha : (if e.inPm && (e.wrapped || outer) then 8 else 4) ≤ 8 := by split <;> decide
    rw [HitsImage, rightWidth_iff, ← offset_eq_iff m ha hsize e.size rfl, FlagHelper.addr, flagsAddr,
      imageAddr, stackOffset, hmode, hflag]
  | callbackSzf => exact Iff.rfl
  | callbackScf => exact Iff.rfl

/-- In real mode, with a 16-bit stack, all three helpers look at the same word unless the frame
    wraps, and the two of the compatibility layer at the image even then. -/
theorem callback_hits_realMode {h : FlagHelper} {m : Machine} {int21 : Bool} {outer : Bool}
    (hh : h ≠ .setCf) (hbase : m.segPhys .ss = m.segVal .ss * 16) (hbig : m.cpu.stackBig = false) :
    HitsImage h (.realMode int21) outer m := by
  have hv := m.segVal_lt .ss
  have himage : m.segVal .ss * 16 + (m.sp + 4) % 65536 = imageAddr 2 m := by
    simp only [imageAddr, wrapStack, stackOffset, hbig, Bool.false_eq_true, if_false, hbase]
    rw [lin_of_lt (by omega)]
  cases h with
  | setCf => exact absurd rfl hh
  | callbackSzf => exact himage
  | callbackScf => exact himage

/-- In every nesting, a helper called by the service entered last changes exactly its bit of the
    image the stub will pop if and only if its address is the image's, or both bits have the
    value already. -/
theorem flagHelper_onlyBit_iff {m₀ : Machine} (h₀ : m₀.intGateBits32 = false) {es : List GateEvent}
    {s : GateState} (hrun : Run gateStep ⟨m₀, []⟩ es s) {l : Level} {rest : List Level}
    (hl : s.levels = l :: rest) (hmode : s.m.cpu.pmode = l.entry.inPm) (h : FlagHelper)
    (val : Bool) :
    OnlyBit (imageAddr l.entry.size s.m) h.bit val s.m.mem (h.apply s.m val).mem ↔
      HitsImage h l.entry (wrapperLive rest) s.m ∨
        ((readb s.m.mem (h.addr s.m)).testBit h.bit = val ∧
          (readb s.m.mem (imageAddr l.entry.size s.m)).testBit h.bit = val) := by
  have hflag : s.m.intGateBits32 = (l.entry.wrapped || wrapperLive rest) := by
    rw [(run_tracks h₀ hrun).flag, hl]
    rfl
  rw [h.apply_mem, onlyBit_editFlag_iff h.bit_lt, addr_eq_image_iff hmode hflag]

/-- A 32-bit client in protected mode, its ring-0 frame at FECh. -/
def clientBoot : Machine :=
  ({ bootMachine with cpu := { zeroCpu with
      pmode := true
      stackBig := true
      segs := Function.update zeroCpu.segs .ss
        ⟨BitVec.ofNat 16 PM_CB_STACK, BitVec.ofNat 32 PM_CB_STACK_BASE⟩ } }).setR32 .esp 0xFEC

/-- The machine in the bits32 wrapper. -/
def clientWrapped : Machine := { clientBoot with intGateBits32 := true }

theorem run_nested :
    Run gateStep ⟨clientBoot, []⟩ [.enter .gate32 clientWrapped, .enter .int60Shim clientWrapped]
      ⟨clientWrapped, [⟨.int60Shim, true⟩, ⟨.gate32, false⟩]⟩ :=
  .cons (t := ⟨clientWrapped, [⟨.gate32, false⟩]⟩) ⟨rfl, rfl⟩ (.single ⟨rfl, rfl⟩)

/-- INT 21h of that client, and inside it (a child's, say) INT 60h through its shim. -/
theorem flagHelper_onlyBit_iff_nested :
    OnlyBit (imageAddr 4 clientWrapped) 0 true clientWrapped.mem (setCf clientWrapped true).mem :=
  (flagHelper_onlyBit_iff rfl run_nested rfl rfl .setCf true).mpr (Or.inl ⟨rfl, Or.inl rfl⟩)

/-- INT 60h of that client on its own: CF is wanted in the EFLAGS at +8, `set_cf` puts it in the
    CS at +4. -/
theorem shim_setCf_misses :
    ∃ es s l rest, Run gateStep ⟨clientBoot, []⟩ es s ∧ s.levels = l :: rest ∧
      l.entry = .int60Shim ∧ s.m.cpu.pmode = true ∧
      ¬ OnlyBit (imageAddr l.entry.size s.m) 0 true s.m.mem (setCf s.m true).mem :=
  ⟨[.enter .int60Shim clientBoot], ⟨clientBoot, [⟨.int60Shim, false⟩]⟩, ⟨.int60Shim, false⟩, [],
    .single ⟨rfl, rfl⟩, rfl, rfl, rfl, fun h => absurd h.set (by decide +kernel)⟩

end Dosiz.Gates
