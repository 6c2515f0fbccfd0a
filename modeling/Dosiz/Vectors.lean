/-
  Dosiz/Vectors.lean
  ==================
  **Saving and restoring a vector** (INT 31h AX=0202 to 0205 of `bridge.cc`).

  The getters return a selector and an offset; the setters derive the width of the gate
  from the selector's descriptor, and AX=0203 may put a trampoline in the handler's
  place.  After any run of the setters the gates still have the shape `write_idt_gate`
  gives them, and a gate is restored exactly where its width is the one its selector
  stands for (AX=0205), or where AX=0203 would write it for the recorded handler.
-/
import Mathlib.Tactic.IntervalCases
import Dosiz.Int31
import Dosiz.ClientEntry

namespace Dosiz

open ByteMemory Machine Transition

/-! ### Gates -/

/-- The eight bytes of gate `v` are the same. -/
def SameGate (mem mem' : Mem) (v : Nat) : Prop :=
  ∀ k < 8, readb mem' (IDT_BASE + v * 8 + k) = readb mem (IDT_BASE + v * 8 + k)

/-- The gate is a 32-bit one. -/
def gateWide (mem : Mem) (v : Nat) : Bool := readb mem (IDT_BASE + v * 8 + 5) = 0xEE

abbrev gateSel (mem : Mem) (v : Nat) : Nat := gateSelector mem (IDT_BASE + v * 8)
abbrev gateOff (mem : Mem) (v : Nat) : Nat := gateOffset mem (IDT_BASE + v * 8)

theorem gateSelector_lt (mem : Mem) (p : Nat) : gateSelector mem p < 65536 := by
  have h₂ := readb_lt mem (p + 2)
  have h₃ := readb_lt mem (p + 3)
  simp only [gateSelector]
  omega

theorem gateOffset_lt (mem : Mem) (p : Nat) : gateOffset mem p < 4294967296 := by
  have h₀ := readb_lt mem p
  have h₁ := readb_lt mem (p + 1)
  have h₆ := readb_lt mem (p + 6)
  have h₇ := readb_lt mem (p + 7)
  simp only [gateOffset]
  omega

/-- A word and a dword are their bytes. -/
theorem word_bytes {n b₀ b₁ : Nat} (h : n < 65536) (h₀ : b₀ < 256) (h₁ : b₁ < 256) :
    n = b₀ + b₁ * 256 ↔ b₀ = n % 256 % 256 ∧ b₁ = n / 256 % 256 % 256 := by omega

theorem dword_bytes {n b₀ b₁ b₂ b₃ : Nat} (h : n < 4294967296) (h₀ : b₀ < 256) (h₁ : b₁ < 256)
    (h₂ : b₂ < 256) (h₃ : b₃ < 256) : n = b₀ + b₁ * 256 + b₂ * 65536 + b₃ * 16777216 ↔
      b₀ = n % 256 % 256 ∧ b₁ = n / 256 % 256 % 256 ∧ b₂ = n / 65536 % 256 % 256 ∧
        b₃ = n / 16777216 % 256 % 256 := by
  have hlow := word_bytes (Nat.mod_lt n (show 0 < 65536 by decide)) h₀ h₁
  have hhigh := word_bytes (Nat.div_lt_of_lt_mul (show n < 65536 * 65536 by omega)) h₂ h₃
  constructor
  · intro hn
    have hl := hlow.1 (by omega)
    have hh := hhigh.1 (by omega)
    omega
  · rintro ⟨e₀, e₁, e₂, e₃⟩
    have hl := hlow.2 (by omega)
    have hh := hhigh.2 (by omega)
    omega

/-- A gate of the host's shape is its selector, its offset and its width: writing a gate gives the
    same bytes exactly where it writes these. -/
theorem sameGate_write_iff {mem : Mem} {v : Nat} (h : HostGate mem v) (mem₂ : Mem) {sel off : Nat}
    (hsel : sel < 65536) (hoff : off < 4294967296) (bits32 : Bool) :
    SameGate mem (writeIdtGate mem₂ v sel off bits32) v ↔
      sel = gateSel mem v ∧ off = gateOff mem v ∧ bits32 = gateWide mem v := by
  have hw := fun k hk => readb_writeIdtGate mem₂ v sel off bits32 (k := k) hk
  have hw₀ := hw 0 (by decide)
  have hw₁ := hw 1 (by decide)
  have hw₂ := hw 2 (by decide)
  have hw₃ := hw 3 (by decide)
  have hw₄ := hw 4 (by decide)
  have hw₅ := hw 5 (by decide)
  have hw₆ := hw 6 (by decide)
  have hw₇ := hw 7 (by decide)
  simp only [List.getD_cons_succ, List.getD_cons_zero] at hw₀ hw₁ hw₂ hw₃ hw₄ hw₅ hw₆ hw₇
  have hlt := fun k => readb_lt mem (IDT_BASE + v * 8 + k)
  have hlt₀ := hlt 0
  have hlt₁ := hlt 1
  have hlt₂ := hlt 2
  have hlt₃ := hlt 3
  have hlt₆ := hlt 6
  have hlt₇ := hlt 7
  simp only [Nat.add_zero] at hw₀ hlt₀
  have hword := word_bytes hsel hlt₂ hlt₃
  have hdword := dword_bytes hoff hlt₀ hlt₁ hlt₆ hlt₇
  constructor
  · intro hs
    have hs₀ := hs 0 (by decide)
    have hs₁ := (hs 1 (by decide)).symm.trans hw₁
    have hs₂ := (hs 2 (by decide)).symm.trans hw₂
    have hs₃ := (hs 3 (by decide)).symm.trans hw₃
    have hs₅ := (hs 5 (by decide)).symm.trans hw₅
    have hs₆ := (hs 6 (by decide)).symm.trans hw₆
    have hs₇ := (hs 7 (by decide)).symm.trans hw₇
    simp only [Nat.add_zero, hw₀] at hs₀
    refine ⟨hword.2 ⟨hs₂, hs₃⟩, hdword.2 ⟨hs₀.symm, hs₁, hs₆, hs₇⟩, ?_⟩
    simp only [gateWide, hs₅]
    cases bits32 <;> decide
  · rintro ⟨hsel', hoff', hwide⟩ k hk
    obtain ⟨e₂, e₃⟩ := hword.1 hsel'
    obtain ⟨e₀, e₁, e₆, e₇⟩ := hdword.1 hoff'
    interval_cases k
    · rw [Nat.add_zero, hw₀, e₀]
    · rw [hw₁, e₁]
    · rw [hw₂, e₂]
    · rw [hw₃, e₃]
    · rw [hw₄, h.1]
    · rw [hw₅, hwide]
      rcases h.2 with h₅ | h₅ <;> simp [gateWide, h₅]
    · rw [hw₆, e₆]
    · rw [hw₇, e₇]

/-! ### Runs of the setters -/

/-- Between two calls the client may change anything but the gates, the recorded handlers, the host's
    stubs and the table registers. -/
structure ClientActs (m m' : Machine) : Prop where
  gates : ∀ v < 256, SameGate m.mem m'.mem v
  pmExc : m'.pmExc = m.pmExc
  stubs : m'.stubs = m.stubs
  tables : TablesLoaded m.cpu → TablesLoaded m'.cpu

inductive VectorEvent where
  | client
  | setException
  | setVector

/-- The client acts, or one of the setters answers. -/
def vectorStep (m : Machine) : VectorEvent → Machine → Prop
  | .client, m' => ClientActs m m'
  | .setException, m' => ∃ cf, int31_0203 m = some (m', cf)
  | .setVector, m' => ∃ cf, int31_0205 m = some (m', cf)

/-- Handlers are a word and a dword, the offsets of the stubs words. -/
structure VectorWords (m : Machine) : Prop where
  handlers : ∀ v, (m.pmExc v).sel < 65536 ∧ (m.pmExc v).off < 4294967296
  stubs : ∀ v, m.stubs.pmExcCb32 v < 65536

/-- What every state of a run has: the host's tables loaded, gates of the host's shape. -/
structure VectorsOk (m : Machine) : Prop extends VectorWords m where
  tables : TablesLoaded m.cpu
  gates : ∀ v < 256, HostGate m.mem v

theorem SameGate.hostGate {mem mem' : Mem} {v : Nat} (h : SameGate mem mem' v) (hg : HostGate mem v) :
    HostGate mem' v := by
  unfold HostGate
  rw [h 4 (by decide), h 5 (by decide)]
  exact hg

/-- The gate AX=0203 writes for a handler: selector, offset, width. -/
def excGate (m : Machine) (v sel off : Nat) : Nat × Nat × Bool :=
  if handlerBits32 m sel ∧ m.stubs.pmExcCb32 v ≠ 0 then (PM_CB_SEL, m.stubs.pmExcCb32 v, true)
  else (sel, off, handlerBits32 m sel)

/-- The width AX=0205 gives a gate. -/
def vectorBits32 (m : Machine) (sel : Nat) : Bool :=
  if sel / 4 = 0 then m.cpu.codeBig else (getDescriptor m sel).elim m.cpu.codeBig (descBig m.mem)

theorem int31_0203_eq {m : Machine} (h : m.bl < 32) : int31_0203 m = some ({ m with
    mem := writeIdtGate m.mem m.bl (excGate m m.bl m.cx (m.r32 .edx)).1
      (excGate m m.bl m.cx (m.r32 .edx)).2.1 (excGate m m.bl m.cx (m.r32 .edx)).2.2
    pmExc := Function.update m.pmExc m.bl ⟨m.cx, m.r32 .edx⟩ }, false) := by
  rw [int31_0203, if_neg (by omega)]
  dsimp only
  rw [excGate]
  split_ifs <;> rfl

theorem int31_0205_eq (m : Machine) : int31_0205 m = some ({ m with
    mem := writeIdtGate m.mem m.bl m.cx (m.r32 .edx) (vectorBits32 m m.cx) }, false) := rfl

theorem VectorsOk.setException {m r : Machine} {cf : Bool} (h : VectorsOk m)
    (hr : int31_0203 m = some (r, cf)) : VectorsOk r := by
  by_cases hv : m.bl < 32
  · rw [int31_0203_eq hv] at hr
    cases hr
    refine { tables := h.tables, stubs := h.stubs, handlers := fun v => ?_,
             gates := fun v hv => (h.gates v hv).write_any _ _ _ _ }
    · by_cases hvb : v = m.bl
      · subst hvb
        simp only [Function.update_self]
        exact ⟨r16_lt m .ecx, r32_lt m .edx⟩
      · simp only [Function.update_of_ne hvb]
        exact h.handlers v
  · rw [int31_0203, if_pos (by omega)] at hr
    cases hr
    exact { tables := ⟨h.tables.1, h.tables.2, h.tables.3, h.tables.4⟩
            stubs := h.stubs, gates := h.gates, handlers := h.handlers }

/-- One step keeps the shape. -/
theorem VectorsOk.step {m m' : Machine} {e : VectorEvent} (h : VectorsOk m) (hs : vectorStep m e m') :
    VectorsOk m' := by
  cases e with
  | client =>
    refine { tables := hs.tables h.tables, stubs := ?_, handlers := ?_,
             gates := fun v hv => (hs.gates v hv).hostGate (h.gates v hv) }
    · rw [hs.pmExc]
      exact h.handlers
    · rw [hs.stubs]
      exact h.stubs
  | setException =>
    obtain ⟨cf, hr⟩ := hs
    exact h.setException hr
  | setVector =>
    obtain ⟨cf, hr⟩ := hs
    rw [int31_0205_eq] at hr
    cases hr
    exact { tables := h.tables, stubs := h.stubs, handlers := h.handlers,
            gates := fun v hv => (h.gates v hv).write_any _ _ _ _ }

/-- The state right after a DPMI entry. -/
theorem VectorsOk.entry {eng : Engine} (heng : eng.Loads) {m : Machine} (hc : RealClient m)
    (hw : VectorWords m) : VectorsOk (dosizDpmiEntry eng m) := by
  have hw' : VectorWords (dosizDpmiEntry eng m) := by
    rw [(entryFrame_dosizDpmiEntry eng m).eq]
    exact ⟨hw.handlers, hw.stubs⟩
  cases h3 : goesRing3 m with
  | true =>
    obtain ⟨-, -, -, -, -, -, -, ht, -, hg⟩ := ring3_result heng hc h3
    exact { hw' with tables := ht, gates := hg }
  | false =>
    obtain ⟨-, -, -, -, -, -, -, -, -, ht, -, hg⟩ := ring0_result heng hc h3
    exact { hw' with tables := ht, gates := hg }

theorem vectorsOk_run {m m' : Machine} {es : List VectorEvent} (hrun : Run vectorStep m es m')
    (h : VectorsOk m) : VectorsOk m' :=
  hrun.invariant (fun _ _ _ h hs => h.step hs) h

/-! ### Saving and restoring -/

/-- The client calls with the vector in BL and the answer `q` of a getter in CX and DX, of which a
    32-bit client has kept all of EDX. -/
structure HandsBack (wide : Bool) (q at_ : Machine) (v : Nat) : Prop where
  bl : at_.bl = v
  cx : at_.cx = q.cx
  dx : at_.dx = q.dx
  edx : wide = true → at_.r32 .edx = q.r32 .edx

/-- Reading vector BL with AX=0204 in `m` and handing it to AX=0205 in `at_` ends in `r`. -/
structure HandBackRun (wide : Bool) (m at_ r : Machine) : Prop where
  read : ∃ q cf, int31_0204 m = some (q, cf) ∧ ClientActs q at_ ∧ HandsBack wide q at_ m.bl
  write : ∃ cf, int31_0205 at_ = some (r, cf)

/-- Reading handler BL with AX=0202 in `m`, installing any other with AX=0203, and handing the first
    back to AX=0203 in `at_` ends in `r`. -/
structure RestoreRun (wide : Bool) (m at_ r : Machine) : Prop where
  read : ∃ q cf, int31_0202 m = some (q, cf) ∧ HandsBack wide q at_ m.bl ∧
    ∃ p, ClientActs q p ∧ p.bl = m.bl ∧
      ∃ p' cf', int31_0203 p = some (p', cf') ∧ ClientActs p' at_
  write : ∃ cf, int31_0203 at_ = some (r, cf)

theorem handBack_iff {wide : Bool} {m at_ r : Machine} (hm : VectorsOk m)
    (h : HandBackRun wide m at_ r) : SameGate m.mem r.mem m.bl ↔
      at_.r32 .edx = gateOff m.mem m.bl ∧
        vectorBits32 at_ (gateSel m.mem m.bl) = gateWide m.mem m.bl := by
  obtain ⟨q, cf, hq, -, hback⟩ := h.read
  obtain ⟨cf', hr⟩ := h.write
  cases hq
  have hbl : m.bl < 256 := Nat.mod_lt _ (by decide)
  have hcx : at_.cx = gateSel m.mem m.bl := by
    rw [hback.cx]
    show (Machine.setR32 _ _ _).r16 .ecx = _
    rw [r16, r32_setR32_of_ne _ _ (by decide), ← r16, r16_setR16]
    exact Nat.mod_eq_of_lt (gateSelector_lt _ _)
  rw [int31_0205_eq] at hr
  cases hr
  rw [hback.bl, hcx]
  refine (sameGate_write_iff (hm.gates _ hbl) _ (gateSelector_lt _ _) (r32_lt _ _) _).trans ?_
  simp

/-- What AX=0202 answers for exception BL. -/
def handlerRead (m : Machine) : Machine :=
  (m.setR16 .ecx (m.pmExc m.bl).sel).setR32 .edx (m.pmExc m.bl).off

theorem int31_0202_eq {m : Machine} (hv : m.bl < 32) :
    int31_0202 m = some (handlerRead m, false) := by
  rw [int31_0202, if_neg (by omega)]
  rfl

theorem handlerRead_cx {m : Machine} (hm : VectorWords m) :
    (handlerRead m).cx = (m.pmExc m.bl).sel := by
  rw [cx, r16, handlerRead, r32_setR32_of_ne _ _ (by decide), ← r16, r16_setR16]
  exact Nat.mod_eq_of_lt (hm.handlers _).1

theorem handlerRead_edx {m : Machine} (hm : VectorWords m) :
    (handlerRead m).r32 .edx = (m.pmExc m.bl).off := by
  rw [handlerRead, r32_setR32]
  exact Nat.mod_eq_of_lt (hm.handlers _).2

theorem excGate_lt {m : Machine} (h : ∀ v, m.stubs.pmExcCb32 v < 65536) {v sel off : Nat}
    (hsel : sel < 65536) (hoff : off < 4294967296) :
    (excGate m v sel off).1 < 65536 ∧ (excGate m v sel off).2.1 < 4294967296 := by
  have := h v
  unfold excGate
  split_ifs
  · constructor
    · show PM_CB_SEL < 65536
      decide
    · show m.stubs.pmExcCb32 v < 4294967296
      omega
  · exact ⟨hsel, hoff⟩

theorem restore_iff {wide : Bool} {m at_ r : Machine} (hm : VectorsOk m) (hv : m.bl < 32)
    (h : RestoreRun wide m at_ r) :
    (SameGate m.mem r.mem m.bl ∧ r.pmExc m.bl = m.pmExc m.bl) ↔
      at_.r32 .edx = (m.pmExc m.bl).off ∧
        excGate at_ m.bl (m.pmExc m.bl).sel (m.pmExc m.bl).off =
          (gateSel m.mem m.bl, gateOff m.mem m.bl, gateWide m.mem m.bl) := by
  obtain ⟨q, cf, hq, hback, p, hacts, hbl, p', cf', hp', hacts'⟩ := h.read
  obtain ⟨cf'', hr⟩ := h.write
  rw [int31_0202_eq hv] at hq
  cases hq
  have hcx : at_.cx = (m.pmExc m.bl).sel := by
    rw [hback.cx]
    exact handlerRead_cx hm.toVectorWords
  have hstubs : at_.stubs = m.stubs := by
    have hp : p'.stubs = p.stubs := by
      rw [int31_0203_eq (by rw [hbl]; exact hv)] at hp'
      cases hp'
      rfl
    rw [hacts'.stubs, hp, hacts.stubs]
    rfl
  rw [int31_0203_eq (by rw [hback.bl]; exact hv)] at hr
  cases hr
  dsimp only
  rw [hback.bl, hcx, Function.update_self]
  have hlt := excGate_lt (m := at_) (v := m.bl) (by rw [hstubs]; exact hm.stubs)
    (hm.handlers m.bl).1 (hm.handlers m.bl).2
  have hwrite := sameGate_write_iff (hm.gates m.bl (by omega)) at_.mem hlt.1 hlt.2
    (excGate at_ m.bl (m.pmExc m.bl).sel (m.pmExc m.bl).off).2.2
  constructor
  · rintro ⟨hsame, hexc⟩
    have hedx : at_.r32 .edx = (m.pmExc m.bl).off := congrArg ExcHandler.off hexc
    rw [hedx] at hsame
    obtain ⟨hsel, hoff, hwide⟩ := hwrite.mp hsame
    exact ⟨hedx, Prod.ext hsel (Prod.ext hoff hwide)⟩
  · rintro ⟨hedx, hgate⟩
    rw [hedx]
    refine ⟨hwrite.mpr ?_, rfl⟩
    rw [hgate]
    exact ⟨rfl, rfl, rfl⟩

/-- Saving and restoring vector BL of `m` goes unseen, whatever the client does in between. -/
def RestoresUnseen (wide : Bool) (m : Machine) : Prop :=
  (∀ at_ r, HandBackRun wide m at_ r → SameGate m.mem r.mem m.bl) ∧
    (m.bl < 32 → ∀ at_ r, RestoreRun wide m at_ r →
      SameGate m.mem r.mem m.bl ∧ r.pmExc m.bl = m.pmExc m.bl)

/-- **Saving and restoring vectors.**  In every state a client reaches after its entry, handing back
    what AX=0204 read leaves the gate as it is exactly where all of EDX comes back and AX=0205
    gives the gate's selector the width the gate has; restoring an exception handler with
    AX=0203 leaves gate and handler exactly where all of EDX comes back and the gate is the
    one AX=0203 writes for that handler. -/
theorem vectors_restore_iff {eng : Engine} (heng : eng.Loads) {m₀ : Machine} (hc : RealClient m₀)
    (hw : VectorWords m₀) {es : List VectorEvent} {m : Machine}
    (hrun : Run vectorStep (dosizDpmiEntry eng m₀) es m) (wide : Bool) (at_ r : Machine) :
    (HandBackRun wide m at_ r → (SameGate m.mem r.mem m.bl ↔
      at_.r32 .edx = gateOff m.mem m.bl ∧
        vectorBits32 at_ (gateSel m.mem m.bl) = gateWide m.mem m.bl)) ∧
    (m.bl < 32 → RestoreRun wide m at_ r →
      ((SameGate m.mem r.mem m.bl ∧ r.pmExc m.bl = m.pmExc m.bl) ↔
        at_.r32 .edx = (m.pmExc m.bl).off ∧
          excGate at_ m.bl (m.pmExc m.bl).sel (m.pmExc m.bl).off =
            (gateSel m.mem m.bl, gateOff m.mem m.bl, gateWide m.mem m.bl))) := by
  have hm := vectorsOk_run hrun (VectorsOk.entry heng hc hw)
  exact ⟨fun h => handBack_iff hm h, fun hv h => restore_iff hm hv h⟩

/-! ### A vector set with AX=0205 -/

/-- The client calls with `v` in BL, `sel` in CX and `off` in EDX. -/
def callWith (m : Machine) (v sel off : Nat) : Machine :=
  ((m.setR32 .ebx v).setR32 .ecx sel).setR32 .edx off

theorem clientActs_callWith (m : Machine) (v sel off : Nat) : ClientActs m (callWith m v sel off) :=
  ⟨fun _ _ _ _ => rfl, rfl, rfl, fun h => ⟨h.1, h.2, h.3, h.4⟩⟩

theorem callWith_bl (m : Machine) {v : Nat} (hv : v < 256) (sel off : Nat) :
    (callWith m v sel off).bl = v := by
  have hebx : (callWith m v sel off).r32 .ebx = v % 4294967296 := by
    rw [callWith, r32_setR32_of_ne _ _ (by decide), r32_setR32_of_ne _ _ (by decide), r32_setR32]
  rw [bl, r8l, hebx]
  omega

theorem callWith_ecx (m : Machine) {v sel off : Nat} (hsel : sel < 65536) :
    (callWith m v sel off).cx = sel := by
  rw [cx, r16, callWith, r32_setR32_of_ne _ _ (by decide), r32_setR32]
  omega

theorem callWith_edx (m : Machine) {v sel off : Nat} (hoff : off < 4294967296) :
    (callWith m v sel off).r32 .edx = off := by
  rw [callWith, r32_setR32]
  exact Nat.mod_eq_of_lt hoff

/-- The client `c` has set vector 5 to `sel`:5 with AX=0205. -/
def vectorSet (c : Machine) (sel : Nat) : Machine :=
  { callWith c 5 sel 5 with
    mem := writeIdtGate c.mem 5 sel 5 (vectorBits32 (callWith c 5 sel 5) sel) }

theorem vectorSet_run (c : Machine) {sel : Nat} (hsel : sel < 65536) :
    Run vectorStep c [.client, .setVector] (vectorSet c sel) := by
  refine .cons (clientActs_callWith c 5 sel 5) (.single ⟨false, ?_⟩)
  rw [int31_0205_eq, callWith_bl _ (by decide), callWith_ecx _ hsel, callWith_edx _ (by decide)]
  rfl

theorem vectorSet_pmExc (c : Machine) (sel : Nat) : (vectorSet c sel).pmExc = c.pmExc := by
  unfold vectorSet callWith
  rfl

theorem vectorSet_bl (c : Machine) (sel : Nat) : (vectorSet c sel).bl = 5 :=
  callWith_bl c (by decide) sel 5

theorem vectorSet_gate {c : Machine} (hc : VectorsOk c) {sel : Nat} (hsel : sel < 65536) :
    sel = gateSel (vectorSet c sel).mem 5 ∧ 5 = gateOff (vectorSet c sel).mem 5 ∧
      vectorBits32 (callWith c 5 sel 5) sel = gateWide (vectorSet c sel).mem 5 :=
  (sameGate_write_iff ((vectorsOk_run (vectorSet_run c hsel) hc).gates 5 (by decide)) c.mem hsel
    (by decide) _).mp fun _ _ => rfl

/-- What AX=0204 answers for vector BL. -/
def vectorRead (m : Machine) : Machine :=
  (m.setR16 .ecx (gateSel m.mem m.bl)).setR32 .edx (gateOff m.mem m.bl)

theorem vectorRead_handBack (wide : Bool) (m : Machine) :
    ∃ r, HandBackRun wide m (vectorRead m) r := by
  have hbl : (vectorRead m).bl = m.bl := by
    rw [bl, r8l, vectorRead, r32_setR32_of_ne _ _ (by decide), setR16, r32_setR32_of_ne _ _ (by decide)]
    rfl
  exact ⟨_, ⟨vectorRead m, false, rfl, ⟨fun _ _ _ _ => rfl, rfl, rfl, fun h => ⟨h.1, h.2, h.3, h.4⟩⟩,
    ⟨hbl, rfl, rfl, fun _ => rfl⟩⟩, false, int31_0205_eq _⟩

/-- The null selector stands for the code size of the caller, read or handed back. -/
theorem vectorRead_null {c : Machine} (hc : VectorsOk c) :
    (vectorRead (vectorSet c 0)).r32 .edx = gateOff (vectorSet c 0).mem (vectorSet c 0).bl ∧
      vectorBits32 (vectorRead (vectorSet c 0)) (gateSel (vectorSet c 0).mem (vectorSet c 0).bl) =
        gateWide (vectorSet c 0).mem (vectorSet c 0).bl := by
  obtain ⟨hsel, -, hwide⟩ := vectorSet_gate hc (show 0 < 65536 by decide)
  constructor
  · rw [vectorRead, r32_setR32]
    exact Nat.mod_eq_of_lt (gateOffset_lt _ _)
  · rw [vectorSet_bl, ← hwide, ← hsel]
    rfl

theorem vectorWords_boot (v : Nat) : VectorWords (bootMachine.setR16 .eax v) :=
  ⟨fun _ => ⟨Nat.zero_lt_succ _, Nat.zero_lt_succ _⟩, fun _ => Nat.zero_lt_succ _⟩

/-- A 32-bit client sets a vector to a null selector, reads it and hands it back. -/
theorem vectors_restore_iff_null : ∃ m at_ r, m = vectorSet
      (dosizDpmiEntry cpuEngine (bootMachine.setR16 .eax 1)) 0 ∧ HandBackRun true m at_ r ∧
    SameGate m.mem r.mem m.bl := by
  have hok := VectorsOk.entry cpuEngine_loads (realClient_boot 1) (vectorWords_boot 1)
  obtain ⟨r, hr⟩ := vectorRead_handBack true
    (vectorSet (dosizDpmiEntry cpuEngine (bootMachine.setR16 .eax 1)) 0)
  refine ⟨_, _, r, rfl, hr, ?_⟩
  exact ((vectors_restore_iff cpuEngine_loads (realClient_boot 1) (vectorWords_boot 1)
    (vectorSet_run _ (by decide)) true _ _).1 hr).mpr (vectorRead_null hok)

/-- A handler can be installed over the one AX=0202 reports, and the report put back. -/
theorem restoreRun_exists (wide : Bool) {m : Machine} (hm : VectorWords m) (hv : m.bl < 32) :
    ∃ at_ r, RestoreRun wide m at_ r := by
  have hbl : m.bl < 256 := by omega
  have hp := callWith_bl (handlerRead m) hbl 1 1
  have hinstall := int31_0203_eq (m := callWith (handlerRead m) m.bl 1 1) (by rw [hp]; exact hv)
  generalize hp' : ({ callWith (handlerRead m) m.bl 1 1 with mem := _, pmExc := _ } : Machine) = p'
    at hinstall
  have hat := callWith_bl p' hbl (m.pmExc m.bl).sel (m.pmExc m.bl).off
  have hedx : (callWith p' m.bl (m.pmExc m.bl).sel (m.pmExc m.bl).off).r32 .edx =
      (handlerRead m).r32 .edx := by
    rw [callWith_edx _ (hm.handlers _).2, handlerRead_edx hm]
  have hback : HandsBack wide (handlerRead m)
      (callWith p' m.bl (m.pmExc m.bl).sel (m.pmExc m.bl).off) m.bl :=
    { bl := hat
      cx := by rw [callWith_ecx _ (hm.handlers _).1, handlerRead_cx hm]
      dx := by rw [dx, dx, r16, r16, hedx]
      edx := fun _ => hedx }
  exact ⟨_, _, ⟨handlerRead m, false, int31_0202_eq hv, hback, _, clientActs_callWith _ _ _ _, hp,
    p', false, hinstall, clientActs_callWith _ _ _ _⟩, false, int31_0203_eq (by rw [hat]; exact hv)⟩

theorem excGate_sel (m : Machine) (v sel off : Nat) :
    (excGate m v sel off).1 = PM_CB_SEL ∨ (excGate m v sel off).1 = sel := by
  unfold excGate
  split_ifs
  · exact Or.inl rfl
  · exact Or.inr rfl

theorem entry_pmExc (eng : Engine) (m : Machine) : (dosizDpmiEntry eng m).pmExc = m.pmExc := by
  rw [(entryFrame_dosizDpmiEntry eng m).eq]

/-- A 32-bit client sets vector 5 to 0008:5.  AX=0202 reports 0:0, and an install and a restore
    leave a gate to another selector. -/
theorem vector_lost : ¬ ∀ (m₀ : Machine), RealClient m₀ → VectorWords m₀ →
    ∀ (es : List VectorEvent) (m : Machine), Run vectorStep (dosizDpmiEntry cpuEngine m₀) es m →
      RestoresUnseen true m := by
  intro h
  have hok := VectorsOk.entry cpuEngine_loads (realClient_boot 1) (vectorWords_boot 1)
  have hnone : ∀ v, ((dosizDpmiEntry cpuEngine (bootMachine.setR16 .eax 1)).pmExc v).sel = 0 := by
    intro v
    rw [entry_pmExc]
    rfl
  have hunseen := h _ (realClient_boot 1) (vectorWords_boot 1) _ _
    (vectorSet_run (dosizDpmiEntry cpuEngine (bootMachine.setR16 .eax 1)) (show 8 < 65536 by decide))
  generalize dosizDpmiEntry cpuEngine (bootMachine.setR16 .eax 1) = c at hok hnone hunseen
  have hbl := vectorSet_bl c 8
  have hset := vectorsOk_run (vectorSet_run c (show 8 < 65536 by decide)) hok
  obtain ⟨at_, r, hrun⟩ := restoreRun_exists true hset.toVectorWords (by rw [hbl]; decide)
  have hgate := (restore_iff hset (by rw [hbl]; decide) hrun).mp
    (hunseen.2 (by rw [hbl]; decide) at_ r hrun)
  have hexc : ((vectorSet c 8).pmExc (vectorSet c 8).bl).sel = 0 := by
    rw [vectorSet_pmExc]
    exact hnone _
  have hsel : (excGate at_ 5 0 ((vectorSet c 8).pmExc 5).off).1 = 8 := by
    rw [hexc, hbl, ← (vectorSet_gate hok (show 8 < 65536 by decide)).1] at hgate
    exact congrArg Prod.fst hgate.2
  rcases excGate_sel at_ 5 0 ((vectorSet c 8).pmExc 5).off with hcb | hnull
  · exact absurd (hcb.symm.trans hsel) (by decide)
  · exact absurd (hnull.symm.trans hsel) (by decide)

end Dosiz
