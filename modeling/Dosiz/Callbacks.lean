/-
  Dosiz/Callbacks.lean
  ====================
  **Callback numbers** (`CALLBACK_Allocate`, `CALLBACK_DeAllocate`, `CALLBACK_Setup`, `CALLBACK_Init`,
  `CALLBACK_HandlerObject` and the native call of `cpu_step`, `dosbox_compat.cc`).

  A service is a handler object: it takes one of 250 numbers, puts its function under the number and a stub for
  the guest in the slot of the number.  Whatever objects come and go, the stub of an object calls the function
  the object was installed with last, no number has two owners or none, and an object stays without a
  number only where all numbers are taken (`callbacks_dispatch`).
-/
import Mathlib.Data.List.Induction
import Dosiz.Gates

namespace Dosiz.Callbacks

open ByteMemory Machine Transition Gates

/-! ### Objects and numbers -/

/-- `CALLBACK_HandlerObject` -/
structure HandlerObject where
  installed : Bool
  cbNumber : Nat
  vecInstalled : Bool
  vecInterrupt : Fin 256
  vecOld : Nat

def HandlerObject.new : HandlerObject := ⟨false, 0, false, 0, 0⟩

/-- `g_cb_handlers`, `g_cb_allocated`, the handler objects and the memory. -/
structure CbState (H : Type) where
  handlers : Nat → Option H
  allocated : Nat → Bool
  objs : Nat → HandlerObject
  mem : Mem

def physPointer (cb : Nat) : Nat := CB_SEG * 16 + (CB_SOFFSET + cb * CB_SIZE) % 65536

def realPointer (cb : Nat) : Nat := CB_SEG * 65536 + (CB_SOFFSET + cb * CB_SIZE) % 65536

section Operations

variable {H : Type}

/-- The first number from 1 on that is not taken. -/
def freeNumber (allocated : Nat → Bool) : Option Nat := (List.range CB_MAX).find? fun i => 0 < i && !allocated i

/-- `CALLBACK_Allocate`: 0 if all numbers are taken. -/
def allocate (s : CbState H) : Nat × CbState H :=
  match freeNumber s.allocated with
  | some i =>
    (i, { s with
      allocated := Function.update s.allocated i true
      handlers := Function.update s.handlers i none })
  | none => (0, s)

/-- `CALLBACK_DeAllocate` -/
def deAllocate (s : CbState H) (cb : Nat) : CbState H :=
  if cb ≠ 0 ∧ cb < CB_MAX then
    { s with
      allocated := Function.update s.allocated cb false
      handlers := Function.update s.handlers cb none }
  else s

/-- `CALLBACK_Setup` -/
def setup (s : CbState H) (cb : Nat) (handler : H) (type : StubType) : CbState H :=
  if CB_MAX ≤ cb then s
  else
    { s with
      handlers := Function.update s.handlers cb (some handler)
      mem := storeBytes s.mem (physPointer cb) (writeStub cb type) }

/-- A number for an object that has none. -/
def number (s : CbState H) (o : Nat) : CbState H :=
  if (s.objs o).installed then s
  else
    { (allocate s).2 with
      objs := Function.update s.objs o { s.objs o with installed := true, cbNumber := (allocate s).1 } }

/-- `Install` -/
def install (s : CbState H) (o : Nat) (handler : H) (type : StubType) : CbState H :=
  setup (number s o) ((number s o).objs o).cbNumber handler type

/-- `Set_RealVec` -/
def setRealVec (s : CbState H) (o : Nat) (vec : Fin 256) : CbState H :=
  if (s.objs o).vecInstalled then s
  else
    { s with
      objs := Function.update s.objs o
        { s.objs o with vecInstalled := true, vecInterrupt := vec, vecOld := readd s.mem (vec * 4) }
      mem := writed s.mem (vec * 4) (realPointer (s.objs o).cbNumber) }

/-- The first half of `Uninstall`: the vector. -/
def releaseVec (s : CbState H) (o : Nat) : CbState H :=
  if (s.objs o).vecInstalled then
    { s with
      objs := Function.update s.objs o { s.objs o with vecInstalled := false }
      mem := writed s.mem ((s.objs o).vecInterrupt * 4) (s.objs o).vecOld }
  else s

/-- `Uninstall`, also of the destructor. -/
def uninstall (s : CbState H) (o : Nat) : CbState H :=
  let s := releaseVec s o
  if (s.objs o).installed then
    { deAllocate s (s.objs o).cbNumber with
      objs := Function.update s.objs o { s.objs o with installed := false } }
  else s

/-- The stubs of `CALLBACK_RunRealInt`, six bytes each: `INT n` and the native call of `call_stop`. -/
def realIntStubs (mem : Mem) : Mem :=
  (List.range 256).foldl
    (fun mem n => storeBytes mem (CB_SEG * 16 + CB_SOFFSET + CB_MAX * CB_SIZE + n * 6) (0xCD :: n :: native 1)) mem

/-- `CALLBACK_Init`: number 0 is reserved, `stop` gets 1 and `iret` 2, which every vector leads to. -/
def callbackInit (stop iret : H) (mem : Mem) : CbState H :=
  let s : CbState H := ⟨fun _ => none, fun i => i = 0, fun _ => .new, mem⟩
  let s := setup (allocate s).2 1 stop .CB_IRET
  let s := setup (allocate s).2 2 iret .CB_IRET
  { s with mem := realIntStubs (storeDwords s.mem 0 (List.replicate 256 (realPointer 2))) }

/-! ### The native call -/

/-- The number behind `FE 38`. -/
def nativeCall (mem : Mem) (a : Nat) : Option Nat :=
  if readb mem a = 0xFE ∧ readb mem (a + 1) = 0x38 then some (readb mem (a + 2) + 256 * readb mem (a + 3)) else none

/-- The function `cpu_step` calls where the processor stands on `a`. -/
def dispatch (s : CbState H) (a : Nat) : Option H :=
  (nativeCall s.mem a).bind fun n => if n < CB_MAX then s.handlers n else none

/-- Where the native call of a stub is: CB_INT21 has an STI in front. -/
def nativeAt : StubType → Nat
  | .CB_INT21 => 1
  | _ => 0

end Operations

/-! ### Runs -/

inductive CallbackEvent (H : Type) where
  | install (o : Nat) (handler : H) (type : StubType)
  | setRealVec (o : Nat) (vec : Fin 256)
  | uninstall (o : Nat)
  | guest

/-- The slots of the numbers. -/
def slots : Set Nat := Set.Ico (CB_SEG * 16 + CB_SOFFSET) (CB_SEG * 16 + CB_SOFFSET + CB_MAX * CB_SIZE)

section Runs

variable {H : Type}

/-- `guest` is anything that leaves the slots alone. -/
def callbackStep (s : CbState H) (e : CallbackEvent H) (s' : CbState H) : Prop :=
  match e with
  | .install o handler type => s' = install s o handler type
  | .setRealVec o vec => s' = setRealVec s o vec
  | .uninstall o => s' = uninstall s o
  | .guest => ∃ mem, AgreesOff (Set.compl slots) s.mem mem ∧ s' = { s with mem := mem }

/-- The function and the stub of an object after one more event. -/
def installStep (o : Nat) (r : Option (H × StubType)) : CallbackEvent H → Option (H × StubType)
  | .install o' handler type => if o' = o then some (handler, type) else r
  | .uninstall o' => if o' = o then none else r
  | _ => r

/-- The function and the stub that the object was installed with last, while it is. -/
def lastInstall (es : List (CallbackEvent H)) (o : Nat) : Option (H × StubType) := es.foldl (installStep o) none

theorem lastInstall_concat (es : List (CallbackEvent H)) (e : CallbackEvent H) (o : Nat) :
    lastInstall (es ++ [e]) o = installStep o (lastInstall es o) e := List.foldl_append

/-! ### The invariant -/

/-- The stub of a number is in its slot. -/
def HasStub (mem : Mem) (n : Nat) (type : StubType) : Prop :=
  ∀ i (h : i < (writeStub n type).length), readb mem (physPointer n + i) = (writeStub n type)[i] % 256

/-- Every number from 3 on has an owner exactly if it is taken, and only one. -/
structure NumbersOk (s : CbState H) : Prop where
  reserved : ∀ i < 3, s.allocated i = true
  number : ∀ o, (s.objs o).installed = true → (s.objs o).cbNumber = 0 ∨ 3 ≤ (s.objs o).cbNumber ∧
    (s.objs o).cbNumber < CB_MAX
  owned : ∀ i, 3 ≤ i → i < CB_MAX →
    (s.allocated i = true ↔ ∃ o, (s.objs o).installed = true ∧ (s.objs o).cbNumber = i)
  distinct : ∀ o o', (s.objs o).installed = true → (s.objs o').installed = true →
    (s.objs o).cbNumber = (s.objs o').cbNumber → (s.objs o).cbNumber = 0 ∨ o = o'

/-- The stub of every object that has a number calls the object's function. -/
structure StubsOk (stop iret : H) (last : Nat → Option (H × StubType)) (s : CbState H) : Prop where
  stop : s.handlers 1 = some stop ∧ HasStub s.mem 1 .CB_IRET
  iret : s.handlers 2 = some iret ∧ HasStub s.mem 2 .CB_IRET
  installed : ∀ o, (s.objs o).installed = (last o).isSome
  stub : ∀ o handler type, last o = some (handler, type) → (s.objs o).cbNumber ≠ 0 →
    s.handlers (s.objs o).cbNumber = some handler ∧ HasStub s.mem (s.objs o).cbNumber type

/-! ### Slots -/

theorem physPointer_eq {n : Nat} (h : n < CB_MAX) : physPointer n = 0xF1000 + n * 32 := by
  have hmod : (CB_SOFFSET + n * CB_SIZE) % 65536 = 0x1000 + n * 32 := by
    unfold CB_MAX at h
    unfold CB_SOFFSET CB_SIZE
    omega
  rw [physPointer, hmod, CB_SEG]
  omega

theorem writeStub_length (n : Nat) (type : StubType) : (writeStub n type).length ≤ 32 := by
  cases type <;> simp [writeStub, native]

theorem hasStub_store (mem : Mem) (n : Nat) (type : StubType) :
    HasStub (storeBytes mem (physPointer n) (writeStub n type)) n type :=
  fun _ h => readb_storeBytes mem (physPointer n) (writeStub n type) h

/-- A stub stays where its slot does. -/
theorem HasStub.congr {mem mem' : Mem} {n : Nat} {type : StubType} {S : Set Nat} (h : HasStub mem n type)
    (hn : n < CB_MAX) (hm : AgreesOff S mem mem') (hS : ∀ a ∈ S, a < 0xF1000 + n * 32 ∨ 0xF1000 + n * 32 + 32 ≤ a) :
    HasStub mem' n type := by
  intro i hi
  have hlen := writeStub_length n type
  rw [hm.readb fun hmem => ?_]
  · exact h i hi
  · have := hS _ hmem
    rw [physPointer_eq hn] at this
    omega

theorem nativeCall_stub {mem : Mem} {n : Nat} {type : StubType} (h : HasStub mem n type) (hn : n < CB_MAX) :
    nativeCall mem (physPointer n + nativeAt type) = some n := by
  have hsmall : n < 256 := lt_trans hn (by decide)
  have hbyte : ∀ i < 4, readb mem (physPointer n + nativeAt type + i) = (native n).getD i 0 := by
    intro i hi
    have hlen : nativeAt type + i < (writeStub n type).length := by
      cases type <;> simp [nativeAt, writeStub, native] <;> omega
    rw [Nat.add_assoc, h _ hlen]
    have hcases : i = 0 ∨ i = 1 ∨ i = 2 ∨ i = 3 := by omega
    rcases hcases with rfl | rfl | rfl | rfl <;> cases type <;>
      simp [nativeAt, writeStub, native, Nat.mod_eq_of_lt hsmall]
  have h₀ := hbyte 0 (by decide)
  have h₁ := hbyte 1 (by decide)
  have h₂ := hbyte 2 (by decide)
  have h₃ := hbyte 3 (by decide)
  rw [nativeCall, if_pos ⟨h₀, h₁⟩, h₂, h₃]
  simp only [native, List.getD_cons_succ, List.getD_cons_zero]
  congr 1
  omega

/-! ### Numbers -/

theorem freeNumber_some {allocated : Nat → Bool} {i : Nat} (h : freeNumber allocated = some i) :
    0 < i ∧ i < CB_MAX ∧ allocated i = false := by
  obtain ⟨hfound, hrange, -⟩ := List.find?_range_eq_some.mp h
  simp only [Bool.and_eq_true, decide_eq_true_eq, Bool.not_eq_true'] at hfound
  exact ⟨hfound.1, List.mem_range.mp hrange, hfound.2⟩

theorem freeNumber_none {allocated : Nat → Bool} (h : freeNumber allocated = none) {i : Nat} (hi : 0 < i)
    (hmax : i < CB_MAX) : allocated i = true := by
  have hskip := List.find?_range_eq_none.mp h i hmax
  simpa [hi] using hskip

/-- What `number` gives an object. -/
structure Numbered (s : CbState H) (o : Nat) (s' : CbState H) : Prop where
  ok : NumbersOk s'
  mem : s'.mem = s.mem
  installed : (s'.objs o).installed = true
  others : ∀ o', o' ≠ o → s'.objs o' = s.objs o'
  /-- No one else's function is lost. -/
  handlers : ∀ i, i ≠ (s'.objs o).cbNumber → s'.handlers i = s.handlers i
  /-- A new object stays without a number only where all are taken. -/
  exhausted : (s.objs o).installed = false → (s'.objs o).cbNumber = 0 →
    ∀ i, 3 ≤ i → i < CB_MAX → ∃ o', (s.objs o').installed = true ∧ (s.objs o').cbNumber = i

/-- The numbers after an object has got number `n`, which no other object has. -/
theorem numbersOk_give {s s' : CbState H} {o n : Nat} (h : NumbersOk s) (hnot : (s.objs o).installed = false)
    (hinst : (s'.objs o).installed = true) (hn : (s'.objs o).cbNumber = n)
    (hothers : ∀ o', o' ≠ o → s'.objs o' = s.objs o')
    (hfree : n = 0 ∨ 3 ≤ n ∧ n < CB_MAX ∧ s.allocated n = false)
    (halloc : ∀ i, s'.allocated i = true ↔ s.allocated i = true ∨ i = n ∧ n ≠ 0) : NumbersOk s' := by
  have hunowned : n ≠ 0 → ∀ o', (s.objs o').installed = true → (s.objs o').cbNumber ≠ n := by
    intro hne o' hinst' heq
    obtain ⟨h₃, hmax, hfree⟩ := hfree.resolve_left hne
    rw [(h.owned n h₃ hmax).mpr ⟨o', hinst', heq⟩] at hfree
    cases hfree
  refine ⟨fun i hi => (halloc i).mpr (.inl (h.reserved i hi)), fun o' hinst' => ?_, fun i h₃ hmax => ?_,
    fun o₁ o₂ h₁ h₂ heq => ?_⟩
  · by_cases ho : o' = o
    · subst ho
      rw [hn]
      exact hfree.imp_right fun hf => ⟨hf.1, hf.2.1⟩
    · rw [hothers o' ho] at hinst' ⊢
      exact h.number o' hinst'
  · rw [halloc, h.owned i h₃ hmax]
    constructor
    · rintro (⟨o', hinst', heq⟩ | ⟨rfl, -⟩)
      · have ho : o' ≠ o := by
          rintro rfl
          rw [hnot] at hinst'
          cases hinst'
        exact ⟨o', by rw [hothers o' ho]; exact ⟨hinst', heq⟩⟩
      · exact ⟨o, hinst, hn⟩
    · rintro ⟨o', hinst', heq⟩
      by_cases ho : o' = o
      · subst ho
        exact .inr ⟨heq.symm.trans hn, by omega⟩
      · rw [hothers o' ho] at hinst' heq
        exact .inl ⟨o', hinst', heq⟩
  · by_cases ho₁ : o₁ = o
    · by_cases ho₂ : o₂ = o
      · exact .inr (ho₁.trans ho₂.symm)
      · subst ho₁
        rw [hothers o₂ ho₂] at h₂ heq
        refine .inl (by_contra fun hne => ?_)
        rw [hn] at heq hne
        exact hunowned hne o₂ h₂ heq.symm
    · by_cases ho₂ : o₂ = o
      · subst ho₂
        rw [hothers o₁ ho₁] at h₁ heq
        refine .inl (by_contra fun hne => ?_)
        rw [hothers o₁ ho₁, heq, hn] at hne
        exact hunowned hne o₁ h₁ (heq.trans hn)
      · rw [hothers o₁ ho₁] at h₁ heq ⊢
        rw [hothers o₂ ho₂] at h₂ heq
        exact h.distinct o₁ o₂ h₁ h₂ heq

theorem numbered (s : CbState H) (o : Nat) (h : NumbersOk s) : Numbered s o (number s o) := by
  rw [number]
  by_cases hinst : (s.objs o).installed = true
  · rw [if_pos hinst]
    exact ⟨h, rfl, hinst, fun _ _ => rfl, fun _ _ => rfl, fun hnot => absurd hinst (by simp [hnot])⟩
  · have hnot : (s.objs o).installed = false := Bool.eq_false_of_not_eq_true hinst
    rw [if_neg hinst, allocate]
    cases hfree : freeNumber s.allocated with
    | none =>
      refine ⟨numbersOk_give (n := 0) h hnot ?_ ?_ ?_ (.inl rfl) ?_, rfl, ?_, ?_, fun _ _ => rfl, fun _ _ i h₃ hmax =>
        (h.owned i h₃ hmax).mp (freeNumber_none hfree (by omega) hmax)⟩ <;> simp +contextual [Function.update_of_ne]
    | some n =>
      obtain ⟨hpos, hmax, htaken⟩ := freeNumber_some hfree
      have h₃ : 3 ≤ n := by
        by_contra hlt
        rw [h.reserved n (by omega)] at htaken
        cases htaken
      refine ⟨numbersOk_give (n := n) h hnot ?_ ?_ ?_ (.inr ⟨h₃, hmax, htaken⟩) ?_, rfl, ?_, ?_, ?_, ?_⟩
      · simp
      · simp
      · simp +contextual [Function.update_of_ne]
      · intro i
        by_cases hi : i = n
        · subst hi
          simp [hpos.ne']
        · simp [hi]
      · simp
      · simp +contextual [Function.update_of_ne]
      · simp +contextual [Function.update_of_ne]
      · simp [hpos.ne']

/-! ### The steps -/

section Steps

variable {stop iret : H} {last : Nat → Option (H × StubType)} {s s' : CbState H}

/-- Memory that changes below the slots, or in the slot of one number, keeps the stubs of the others. -/
theorem stubs_frame {mem mem' : Mem} {S : Set Nat} (hm : AgreesOff S mem mem') {n : Nat} {type : StubType}
    (hn : n < CB_MAX) (h : HasStub mem n type)
    (hS : ∀ a ∈ S, a < 0xF1000 ∨ ∃ n', n' < CB_MAX ∧ n' ≠ n ∧ 0xF1000 + n' * 32 ≤ a ∧ a < 0xF1000 + n' * 32 + 32) :
    HasStub mem' n type := by
  refine h.congr hn hm fun a ha => ?_
  rcases hS a ha with hlow | ⟨n', -, hne, hlo, hhi⟩ <;> omega

/-- `setup` changes the function and the slot of its number. -/
theorem setup_eq {n : Nat} (hn : n < CB_MAX) (handler : H) (type : StubType) : setup s n handler type =
    { s with
      handlers := Function.update s.handlers n (some handler)
      mem := storeBytes s.mem (physPointer n) (writeStub n type) } :=
  if_neg (Nat.not_le.mpr hn)

theorem setup_stub {n n' : Nat} {handler : H} {type type' : StubType} (hn : n < CB_MAX) (hn' : n' < CB_MAX)
    (hne : n' ≠ n) (h : HasStub s.mem n' type') : HasStub (setup s n handler type).mem n' type' := by
  rw [setup_eq hn]
  refine stubs_frame (storeBytes_off s.mem (physPointer n) (writeStub n type)) hn' h fun a ha => .inr ?_
  have hlen := writeStub_length n type
  have hlo := ha.1
  have hhi := ha.2
  rw [physPointer_eq hn] at hlo hhi
  exact ⟨n, hn, hne.symm, hlo, by omega⟩

theorem NumbersOk.lt (h : NumbersOk s) {o : Nat} (ho : (s.objs o).installed = true) :
    (s.objs o).cbNumber < CB_MAX := by
  rcases h.number o ho with h₀ | h₃
  · rw [h₀]
    decide
  · exact h₃.2

theorem install_ok (hnum : NumbersOk s) (hstub : StubsOk stop iret last s) (o : Nat) (handler : H) (type : StubType) :
    NumbersOk (install s o handler type) ∧
      StubsOk stop iret (fun o' => installStep o' (last o') (.install o handler type)) (install s o handler type) := by
  obtain ⟨hok, hmem, hinst, hothers, hhandlers, -⟩ := numbered s o hnum
  have hn := hok.lt hinst
  have hsys : ((number s o).objs o).cbNumber ≠ 1 ∧ ((number s o).objs o).cbNumber ≠ 2 := by
    rcases hok.number o hinst with h₀ | h₃ <;> omega
  rw [install, setup_eq hn]
  have hkeep : ∀ n' type', n' < CB_MAX → n' ≠ ((number s o).objs o).cbNumber → HasStub s.mem n' type' →
      HasStub (storeBytes (number s o).mem (physPointer ((number s o).objs o).cbNumber)
        (writeStub ((number s o).objs o).cbNumber type)) n' type' := by
    intro n' type' hn' hne h
    have : HasStub (setup (number s o) _ handler type).mem n' type' :=
      setup_stub hn hn' hne (by rw [hmem]; exact h)
    rwa [setup_eq hn] at this
  refine ⟨⟨hok.reserved, hok.number, hok.owned, hok.distinct⟩, ⟨?_, ?_⟩, ⟨?_, ?_⟩, fun o' => ?_,
    fun o' handler' type' hlast hne => ?_⟩
  · simp only [Function.update_of_ne hsys.1.symm, hhandlers 1 hsys.1.symm]
    exact hstub.stop.1
  · exact hkeep 1 .CB_IRET (by decide) hsys.1.symm hstub.stop.2
  · simp only [Function.update_of_ne hsys.2.symm, hhandlers 2 hsys.2.symm]
    exact hstub.iret.1
  · exact hkeep 2 .CB_IRET (by decide) hsys.2.symm hstub.iret.2
  · simp only [installStep]
    by_cases ho : o = o'
    · subst ho
      simp [hinst]
    · simp [ho, hothers o' (Ne.symm ho), hstub.installed o']
  · simp only [installStep] at hlast
    by_cases ho : o = o'
    · subst ho
      rw [if_pos rfl] at hlast
      obtain ⟨rfl, rfl⟩ := Prod.mk.inj (Option.some.inj hlast)
      exact ⟨Function.update_self .., hasStub_store _ _ _⟩
    · rw [if_neg ho] at hlast
      have hinst' : ((number s o).objs o').installed = true := by
        rw [hothers o' (Ne.symm ho), hstub.installed o', hlast]
        rfl
      have hdiff : ((number s o).objs o').cbNumber ≠ ((number s o).objs o).cbNumber := fun heq =>
        (hok.distinct o' o hinst' hinst heq).elim hne fun h => ho h.symm
      have hn' := hok.lt hinst'
      rw [hothers o' (Ne.symm ho)] at hne hdiff hn'
      obtain ⟨hfun, hslot⟩ := hstub.stub o' handler' type' hlast hne
      simp only [hothers o' (Ne.symm ho), Function.update_of_ne hdiff, hhandlers _ hdiff]
      exact ⟨hfun, hkeep _ type' hn' hdiff hslot⟩

/-- A change of the vectors and of what an object keeps about its own. -/
theorem vector_ok (hnum : NumbersOk s) (hstub : StubsOk stop iret last s) (halloc : s'.allocated = s.allocated)
    (hhandlers : s'.handlers = s.handlers)
    (hobjs : ∀ o, (s'.objs o).installed = (s.objs o).installed ∧ (s'.objs o).cbNumber = (s.objs o).cbNumber)
    {S : Set Nat} (hm : AgreesOff S s.mem s'.mem) (hS : ∀ a ∈ S, a < 0xF1000) :
    NumbersOk s' ∧ StubsOk stop iret last s' := by
  have hkeep : ∀ n type, n < CB_MAX → HasStub s.mem n type → HasStub s'.mem n type := fun n type hn h =>
    stubs_frame hm hn h fun a ha => .inl (hS a ha)
  refine ⟨⟨?_, ?_, ?_, ?_⟩, ⟨?_, ?_⟩, ⟨?_, ?_⟩, fun o => ?_, fun o handler type hlast hne => ?_⟩
  · simpa only [halloc] using hnum.reserved
  · simpa only [fun o => (hobjs o).1, fun o => (hobjs o).2] using hnum.number
  · simpa only [halloc, fun o => (hobjs o).1, fun o => (hobjs o).2] using hnum.owned
  · simpa only [fun o => (hobjs o).1, fun o => (hobjs o).2] using hnum.distinct
  · rw [hhandlers]
    exact hstub.stop.1
  · exact hkeep 1 .CB_IRET (by decide) hstub.stop.2
  · rw [hhandlers]
    exact hstub.iret.1
  · exact hkeep 2 .CB_IRET (by decide) hstub.iret.2
  · rw [(hobjs o).1]
    exact hstub.installed o
  · rw [(hobjs o).2] at hne ⊢
    have hinst : (s.objs o).installed = true := by
      rw [hstub.installed o, hlast]
      rfl
    obtain ⟨hfun, hslot⟩ := hstub.stub o handler type hlast hne
    rw [hhandlers]
    exact ⟨hfun, hkeep _ type (hnum.lt hinst) hslot⟩

theorem setRealVec_ok (hnum : NumbersOk s) (hstub : StubsOk stop iret last s) (o : Nat) (vec : Fin 256) :
    NumbersOk (setRealVec s o vec) ∧ StubsOk stop iret last (setRealVec s o vec) := by
  rw [setRealVec]
  split_ifs
  · exact ⟨hnum, hstub⟩
  · refine vector_ok hnum hstub rfl rfl (fun o' => ?_) (writed_off s.mem (vec * 4) _) fun a ha => ?_
    · by_cases ho : o' = o
      · subst ho
        simp
      · simp [Function.update_of_ne ho]
    · have := vec.isLt
      have := ha.2
      omega

theorem releaseVec_ok (hnum : NumbersOk s) (hstub : StubsOk stop iret last s) (o : Nat) :
    NumbersOk (releaseVec s o) ∧ StubsOk stop iret last (releaseVec s o) := by
  rw [releaseVec]
  split_ifs
  · refine vector_ok hnum hstub rfl rfl (fun o' => ?_) (writed_off s.mem ((s.objs o).vecInterrupt * 4) _) fun a ha => ?_
    · by_cases ho : o' = o
      · subst ho
        simp
      · simp [Function.update_of_ne ho]
    · have := (s.objs o).vecInterrupt.isLt
      have := ha.2
      omega
  · exact ⟨hnum, hstub⟩

theorem guest_ok {mem : Mem} (hnum : NumbersOk s) (hstub : StubsOk stop iret last s)
    (hm : AgreesOff (Set.compl slots) s.mem mem) :
    NumbersOk { s with mem := mem } ∧ StubsOk stop iret last { s with mem := mem } := by
  have hkeep : ∀ n type, n < CB_MAX → HasStub s.mem n type → HasStub mem n type := fun n type hn h =>
    h.congr hn hm fun a ha => by
      by_contra hin
      have hmax : n * 32 + 32 ≤ CB_MAX * CB_SIZE := by
        have := Nat.mul_le_mul_right 32 hn
        unfold CB_SIZE
        omega
      refine ha ⟨?_, ?_⟩ <;> simp only [CB_SEG, CB_SOFFSET] <;> omega
  refine ⟨⟨hnum.reserved, hnum.number, hnum.owned, hnum.distinct⟩, ⟨hstub.stop.1, ?_⟩, ⟨hstub.iret.1, ?_⟩,
    hstub.installed, fun o handler type hlast hne => ?_⟩
  · exact hkeep 1 .CB_IRET (by decide) hstub.stop.2
  · exact hkeep 2 .CB_IRET (by decide) hstub.iret.2
  · have hinst : (s.objs o).installed = true := by
      rw [hstub.installed o, hlast]
      rfl
    obtain ⟨hfun, hslot⟩ := hstub.stub o handler type hlast hne
    exact ⟨hfun, hkeep _ type (hnum.lt hinst) hslot⟩

/-- What giving a number back changes. -/
theorem deAllocate_eq {n : Nat} (hn : n < CB_MAX) : (deAllocate s n).objs = s.objs ∧ (deAllocate s n).mem = s.mem ∧
    (∀ i, i ≠ n ∨ n = 0 → (deAllocate s n).handlers i = s.handlers i ∧ (deAllocate s n).allocated i = s.allocated i) ∧
    (n ≠ 0 → (deAllocate s n).allocated n = false) := by
  rw [deAllocate]
  split_ifs with h
  · refine ⟨rfl, rfl, fun i hi => ?_, fun _ => Function.update_self ..⟩
    have hne : i ≠ n := hi.resolve_right h.1
    simp [Function.update_of_ne hne]
  · exact ⟨rfl, rfl, fun _ _ => ⟨rfl, rfl⟩, fun hne => absurd ⟨hne, hn⟩ h⟩

theorem uninstall_ok (hnum : NumbersOk s) (hstub : StubsOk stop iret last s) (o : Nat) :
    NumbersOk (uninstall s o) ∧
      StubsOk stop iret (fun o' => installStep o' (last o') (.uninstall o : CallbackEvent H)) (uninstall s o) := by
  obtain ⟨hnum, hstub⟩ := releaseVec_ok hnum hstub o
  rw [uninstall]
  generalize releaseVec s o = s at hnum hstub
  by_cases hinst : (s.objs o).installed = true
  · have hn := hnum.lt hinst
    obtain ⟨hobjs, hmem, hothers, hfree⟩ := deAllocate_eq (s := s) hn
    have hsys : ∀ i < 3, i ≠ (s.objs o).cbNumber ∨ (s.objs o).cbNumber = 0 := fun i hi => by
      rcases hnum.number o hinst with h₀ | h₃ <;> omega
    have hout : ∀ o', ((Function.update s.objs o { s.objs o with installed := false }) o').installed = true →
        o' ≠ o ∧ (s.objs o').installed = true := fun o' h => by
      by_cases ho : o' = o
      · subst ho
        simp at h
      · rw [Function.update_of_ne ho] at h
        exact ⟨ho, h⟩
    have hother : ∀ o', o' ≠ o → (s.objs o').installed = true →
        (s.objs o').cbNumber ≠ (s.objs o).cbNumber ∨ (s.objs o).cbNumber = 0 := fun o' ho h => by
      by_cases heq : (s.objs o').cbNumber = (s.objs o).cbNumber
      · exact .inr (heq ▸ (hnum.distinct o' o h hinst heq).resolve_right ho)
      · exact .inl heq
    rw [if_pos hinst]
    refine ⟨⟨fun i hi => ?_, fun o' h => ?_, fun i h₃ hmax => ?_, fun o₁ o₂ h₁ h₂ heq => ?_⟩, ⟨?_, ?_⟩, ⟨?_, ?_⟩,
      fun o' => ?_, fun o' handler type hlast hne => ?_⟩
    · exact (hothers i (hsys i hi)).2.trans (hnum.reserved i hi)
    · obtain ⟨ho, h⟩ := hout o' h
      simp only [Function.update_of_ne ho]
      exact hnum.number o' h
    · dsimp only
      by_cases hi : i = (s.objs o).cbNumber
      · rw [hi, hfree (by omega)]
        refine ⟨fun h => absurd h Bool.false_ne_true, ?_⟩
        rintro ⟨o', h, heq⟩
        obtain ⟨ho, h⟩ := hout o' h
        rw [Function.update_of_ne ho] at heq
        rcases hother o' ho h with hne | h₀
        · exact absurd heq hne
        · omega
      · rw [(hothers i (.inl hi)).2, hnum.owned i h₃ hmax]
        constructor
        · rintro ⟨o', h, heq⟩
          have ho : o' ≠ o := by
            rintro rfl
            exact hi heq.symm
          exact ⟨o', by rw [Function.update_of_ne ho]; exact ⟨h, heq⟩⟩
        · rintro ⟨o', h, heq⟩
          obtain ⟨ho, h⟩ := hout o' h
          rw [Function.update_of_ne ho] at heq
          exact ⟨o', h, heq⟩
    · obtain ⟨ho₁, h₁⟩ := hout o₁ h₁
      obtain ⟨ho₂, h₂⟩ := hout o₂ h₂
      simp only [Function.update_of_ne ho₁, Function.update_of_ne ho₂] at heq ⊢
      exact hnum.distinct o₁ o₂ h₁ h₂ heq
    · exact (hothers 1 (hsys 1 (by decide))).1.trans hstub.stop.1
    · exact hmem ▸ hstub.stop.2
    · exact (hothers 2 (hsys 2 (by decide))).1.trans hstub.iret.1
    · exact hmem ▸ hstub.iret.2
    · simp only [installStep]
      by_cases ho : o = o'
      · subst ho
        simp
      · simp [ho, Function.update_of_ne (Ne.symm ho), hstub.installed o']
    · simp only [installStep] at hlast
      by_cases ho : o = o'
      · rw [if_pos ho] at hlast
        cases hlast
      · rw [if_neg ho] at hlast
        have h : (s.objs o').installed = true := by
          rw [hstub.installed o', hlast]
          rfl
        simp only [Function.update_of_ne (Ne.symm ho)] at hne ⊢
        obtain ⟨hfun, hslot⟩ := hstub.stub o' handler type hlast hne
        exact ⟨(hothers _ (hother o' (Ne.symm ho) h)).1.trans hfun, hmem ▸ hslot⟩
  · have hnot : (s.objs o).installed = false := Bool.eq_false_of_not_eq_true hinst
    rw [if_neg hinst]
    refine ⟨hnum, hstub.stop, hstub.iret, fun o' => ?_, fun o' handler type hlast => hstub.stub o' handler type ?_⟩
    · simp only [installStep]
      by_cases ho : o = o'
      · subst ho
        simp [hnot]
      · simp [ho, hstub.installed o']
    · simp only [installStep] at hlast
      split_ifs at hlast
      exact hlast

theorem callbackStep_ok {e : CallbackEvent H} (hnum : NumbersOk s) (hstub : StubsOk stop iret last s)
    (hs : callbackStep s e s') :
    NumbersOk s' ∧ StubsOk stop iret (fun o => installStep o (last o) e) s' := by
  cases e with
  | install o handler type =>
    obtain rfl := hs
    exact install_ok hnum hstub o handler type
  | setRealVec o vec =>
    obtain rfl := hs
    exact setRealVec_ok hnum hstub o vec
  | uninstall o =>
    obtain rfl := hs
    exact uninstall_ok hnum hstub o
  | guest =>
    obtain ⟨mem, hm, rfl⟩ := hs
    exact guest_ok hnum hstub hm

end Steps

/-! ### Every run -/

section Init

variable (stop iret : H) (mem : Mem)

theorem realIntStubs_off : AgreesOff { a | 0xF1000 + CB_MAX * CB_SIZE ≤ a } mem (realIntStubs mem) := by
  rw [realIntStubs]
  generalize List.range 256 = ns
  induction ns generalizing mem with
  | nil => exact AgreesOff.refl _ _
  | cons n ns ih =>
    refine AgreesOff.trans ((storeBytes_off mem _ (0xCD :: n :: native 1)).mono fun a ha => ?_) (ih _)
    have hlo := ha.1
    simp only [CB_SEG, CB_SOFFSET] at hlo
    show 0xF1000 + CB_MAX * CB_SIZE ≤ a
    omega

/-- The start state, with the numbers of the two functions put in. -/
theorem callbackInit_eq : ∃ mem', callbackInit stop iret mem =
      ⟨Function.update (Function.update (fun _ => none) 1 (some stop)) 2 (some iret), fun i => i < 3, fun _ => .new, mem'⟩ ∧
    HasStub mem' 1 .CB_IRET ∧ HasStub mem' 2 .CB_IRET := by
  have hfree₁ : freeNumber (fun i => decide (i = 0)) = some 1 := by decide
  have hfree₂ : freeNumber (Function.update (fun i => decide (i = 0)) 1 true) = some 2 := by decide
  have halloc : Function.update (Function.update (fun i => decide (i = 0)) 1 true) 2 true = fun i => decide (i < 3) := by
    funext i
    by_cases h₂ : i = 2
    · simp [h₂]
    · by_cases h₁ : i = 1
      · simp [h₁]
      · have hlt : i < 3 ↔ i = 0 := by omega
        simp [h₁, h₂, hlt]
  have hstop : HasStub (storeBytes mem (physPointer 1) (writeStub 1 .CB_IRET)) 1 .CB_IRET := hasStub_store _ _ _
  have hiret : HasStub (storeBytes (storeBytes mem (physPointer 1) (writeStub 1 .CB_IRET)) (physPointer 2)
      (writeStub 2 .CB_IRET)) 2 .CB_IRET := hasStub_store _ _ _
  have hlater : ∀ m n, n < 3 → HasStub m n .CB_IRET →
      HasStub (realIntStubs (storeDwords m 0 (List.replicate 256 (realPointer 2)))) n .CB_IRET := by
    intro m n hn h
    have hmax : n < CB_MAX := lt_trans hn (by decide)
    have hvec := h.congr hmax (storeDwords_off m 0 (List.replicate 256 (realPointer 2))) fun a ha => by
      have := ha.2
      rw [List.length_replicate] at this
      omega
    refine hvec.congr hmax (realIntStubs_off _) fun a ha => .inr ?_
    have hlo : 0xF1000 + CB_MAX * CB_SIZE ≤ a := ha
    unfold CB_MAX CB_SIZE at hlo
    omega
  refine ⟨_, ?_, hlater _ 1 (by decide) (hstop.congr (by decide) (storeBytes_off _ (physPointer 2)
    (writeStub 2 .CB_IRET)) fun a ha => .inr ?_), hlater _ 2 (by decide) hiret⟩
  · simp only [callbackInit, allocate, hfree₁, setup_eq (show 1 < CB_MAX by decide), hfree₂,
      setup_eq (show 2 < CB_MAX by decide), halloc, Function.update_idem]
  · have hlo := ha.1
    rw [physPointer_eq (by decide)] at hlo
    omega

theorem callbackInit_ok : NumbersOk (callbackInit stop iret mem) ∧
    StubsOk stop iret (fun _ => none) (callbackInit stop iret mem) := by
  obtain ⟨mem', heq, hstop, hiret⟩ := callbackInit_eq stop iret mem
  rw [heq]
  refine ⟨⟨fun i hi => decide_eq_true hi, fun o h => ?_, fun i h₃ _ => ?_, fun o _ h => ?_⟩,
    ⟨by simp, hstop⟩, ⟨by simp, hiret⟩, fun _ => rfl, fun _ _ _ h => ?_⟩
  · cases h
  · refine ⟨fun h => absurd (of_decide_eq_true h) (by omega), ?_⟩
    rintro ⟨o, h, -⟩
    cases h
  · cases h
  · cases h

end Init

theorem reached {stop iret : H} {mem : Mem} {es : List (CallbackEvent H)} {s : CbState H}
    (h : Run callbackStep (callbackInit stop iret mem) es s) : NumbersOk s ∧ StubsOk stop iret (lastInstall es) s := by
  induction es using List.reverseRecOn generalizing s with
  | nil =>
    cases h
    exact callbackInit_ok stop iret mem
  | append_singleton es e ih =>
    obtain ⟨u, hu, he⟩ := h.split
    cases he with
    | cons he rest =>
      cases rest
      obtain ⟨hnum, hstub⟩ := ih hu
      rw [show lastInstall (es ++ [e]) = fun o => installStep o (lastInstall es o) e from
        funext (lastInstall_concat es e)]
      exact callbackStep_ok hnum hstub he

/-- A stub calls the function its number has. -/
theorem dispatch_stub {s : CbState H} {n : Nat} {type : StubType} {handler : H} (hn : n < CB_MAX)
    (h : s.handlers n = some handler ∧ HasStub s.mem n type) :
    dispatch s (physPointer n + nativeAt type) = some handler := by
  rw [dispatch, nativeCall_stub h.2 hn]
  simpa [hn] using h.1

/-- **Every stub calls its object.**  In every run: the two stubs of the start call their functions, the stub of every
    installed object with a number calls the function it was installed with last, every number from 3 on is taken
    exactly if an installed object has it, no two objects have one number, and an object is installed without a number
    only when installed objects have all of them. -/
theorem callbacks_dispatch {stop iret : H} {mem : Mem} {es : List (CallbackEvent H)} {s : CbState H}
    (h : Run callbackStep (callbackInit stop iret mem) es s) :
    (dispatch s (physPointer 1) = some stop ∧ dispatch s (physPointer 2) = some iret) ∧
      (∀ o handler type, lastInstall es o = some (handler, type) → (s.objs o).cbNumber ≠ 0 →
        dispatch s (physPointer (s.objs o).cbNumber + nativeAt type) = some handler) ∧
      (∀ i, 3 ≤ i → i < CB_MAX →
        (s.allocated i = true ↔ ∃ o, (lastInstall es o).isSome = true ∧ (s.objs o).cbNumber = i)) ∧
      (∀ o o', (lastInstall es o).isSome = true → (lastInstall es o').isSome = true →
        (s.objs o).cbNumber = (s.objs o').cbNumber → (s.objs o).cbNumber = 0 ∨ o = o') ∧
      ∀ o handler type, (lastInstall es o).isSome = false → ((install s o handler type).objs o).cbNumber = 0 →
        ∀ i, 3 ≤ i → i < CB_MAX → ∃ o', (lastInstall es o').isSome = true ∧ (s.objs o').cbNumber = i := by
  obtain ⟨hnum, hstub⟩ := reached h
  refine ⟨⟨dispatch_stub (by decide) hstub.stop, dispatch_stub (by decide) hstub.iret⟩, fun o handler type hlast hne => ?_, fun i h₃ hmax => ?_,
    fun o o' ho ho' => ?_, fun o handler type hnot h₀ i h₃ hmax => ?_⟩
  · refine dispatch_stub (hnum.lt ?_) (hstub.stub o handler type hlast hne)
    rw [hstub.installed o, hlast]
    rfl
  · simpa only [hstub.installed] using hnum.owned i h₃ hmax
  · rw [← hstub.installed] at ho ho'
    exact hnum.distinct o o' ho ho'
  · rw [← hstub.installed] at hnot
    have hnumbered := numbered s o hnum
    have hsame : ((install s o handler type).objs o).cbNumber = ((number s o).objs o).cbNumber := by
      rw [install, setup_eq (hnumbered.ok.lt hnumbered.installed)]
    simpa only [hstub.installed] using hnumbered.exhausted hnot (hsame.symm.trans h₀) i h₃ hmax

/-- Two objects are installed and the first one goes; a third one gets its number. -/
def threeObjects : CbState Nat :=
  install (uninstall (install (install (callbackInit 1 2 fun _ => 0) 0 10 .CB_IRET) 1 11 .CB_INT21) 0) 2 12 .CB_RETF

theorem callbacks_dispatch_three :
    (threeObjects.objs 2).cbNumber = 3 ∧ dispatch threeObjects (physPointer 3) = some 12 := by
  have hrun : Run callbackStep (callbackInit 1 2 fun _ => 0)
      [.install 0 10 .CB_IRET, .install 1 11 .CB_INT21, .uninstall 0, .install 2 12 .CB_RETF] threeObjects :=
    .cons rfl (.cons rfl (.cons rfl (.single rfl)))
  have hnumber : (threeObjects.objs 2).cbNumber = 3 := by decide +kernel
  have hdispatch := (callbacks_dispatch hrun).2.1 2 12 .CB_RETF rfl (by rw [hnumber]; decide)
  rw [hnumber] at hdispatch
  exact ⟨hnumber, hdispatch⟩

end Runs

end Dosiz.Callbacks
