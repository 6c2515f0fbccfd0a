/-
  Dosiz/Conversions.lean
  ======================
  **Segment to descriptor** (INT 31h AX=0002 of `bridge.cc`).

  `s_seg2desc_cache` remembers the slot of every converted segment, and six services
  touch it or what it points to.  A conversion stands as long as every call in between
  leaves its slot and its base alone; which calls do is decided one call at a time.
-/
import Dosiz.LdtSlots

namespace Dosiz

open ByteMemory Machine Mcb Transition

variable {eng : Engine} {m r : Machine} {cf : Bool}

/-! ### One call -/

/-- AX=0100 does not put a second selector in the place of a remembered one. -/
def BlockUnconverted (m : Machine) (c : LdtCall) : Prop :=
  c = .ax0100 → m.bx ≠ 0 → ldtFindRun m 1 ≠ 0 →
    ∀ a, mcbAllocate m m.bx = some a → a.2.1 ≠ 0 → m.seg2descCache a.2.1 = 0

/-- AX=0101 forgets no other slot than the one it frees. -/
def ForgetsOwn (m : Machine) (c : LdtCall) : Prop :=
  c = .ax0101 → ∀ idx, dosBlockSlot m m.dx = some idx →
    m.seg2descCache (slotDataSeg m idx) = 0 ∨ m.seg2descCache (slotDataSeg m idx) = idx

/-- The call leaves every conversion as it is, but those whose slot it frees. -/
structure KeepsConversions (m : Machine) (c : LdtCall) : Prop where
  bases : KeepsBases m c
  block : BlockUnconverted m c
  forgets : ForgetsOwn m c

/-- Every conversion of `m` whose slot the call does not free is there in `r`. -/
def ConversionsStand (m : Machine) (c : LdtCall) (r : Machine) : Prop :=
  ∀ s, m.seg2descCache s ≠ 0 → ¬ FreesSlot m c (m.seg2descCache s) →
    r.seg2descCache s = m.seg2descCache s ∧ slotBase r.mem (m.seg2descCache s) = s * 16

theorem keepsConversions_of_ne {c : LdtCall} (h₇ : c ≠ .ax0007) (hC : c ≠ .ax000C) (h₁₀₀ : c ≠ .ax0100)
    (h₁₀₁ : c ≠ .ax0101) : KeepsConversions m c := by
  refine ⟨?_, fun h => absurd h h₁₀₀, fun h => absurd h h₁₀₁⟩
  rintro (h | h)
  · exact absurd h h₇
  · exact absurd h hC

/-- A slot that holds a conversion is one an LDT selector can name. -/
theorem selectorIsValid_of_conv (hok : m.ldtView.Ok) {s : Nat} (hs : m.seg2descCache s ≠ 0)
    (hslot : ldtSlot m.bx = some (m.seg2descCache s)) : selectorIsValid m.bx = true := by
  have hlt : m.seg2descCache s < LDT_COUNT := hok.slot s
  unfold ldtSlot at hslot
  split at hslot
  · rename_i hti
    have heq : m.bx / 8 = m.seg2descCache s := Option.some.inj hslot
    unfold selectorIsValid
    dsimp only
    rw [if_pos hti, heq]
    simp only [Bool.not_eq_true', Bool.or_eq_false_iff, decide_eq_false_iff_not]
    exact ⟨hs, by omega⟩
  · cases hslot

/-- A refused call meets the condition. -/
theorem keepsConversions_of_refused {c : LdtCall} (hok : m.ldtView.Ok) (why : RefusedFor m c) :
    KeepsConversions m c := by
  constructor
  · intro hc s hs hslot
    have hvalid := selectorIsValid_of_conv hok hs hslot
    have hwhy : selectorIsValid m.bx = false := by
      rcases hc with rfl | rfl <;> exact why
    rw [hvalid] at hwhy
    cases hwhy
  · rintro rfl hbx hrun a ha hseg
    rcases why with h | ⟨a', ha', h⟩ | h
    · exact absurd h hbx
    · rw [ha] at ha'
      cases ha'
      exact absurd h hseg
    · exact absurd h hrun
  · rintro rfl idx harg
    have hwhy : dosBlockSlot m m.dx = none := why
    rw [hwhy] at harg
    cases harg

/-- **One call.**  The conversions stand exactly where the call meets the condition. -/
theorem conversionsStand_iff {c : LdtCall} (hok : m.ldtView.Ok) (he : LdtEffect m c r cf) :
    ConversionsStand m c r ↔ KeepsConversions m c := by
  have hbase : ∀ s, m.seg2descCache s ≠ 0 → slotBase m.mem (m.seg2descCache s) = s * 16 := hok.base
  have htaken : ∀ s, m.seg2descCache s ≠ 0 → m.ldtInUse (m.seg2descCache s) = true := hok.taken
  have hconv : ∀ {v : LdtView}, r.ldtView = v → ∀ s, r.seg2descCache s = v.conv s :=
    fun h s => congrArg (LdtView.conv · s) h
  have hbases : ∀ {v : LdtView}, r.ldtView = v → ∀ i, slotBase r.mem i = v.base i :=
    fun h i => congrArg (LdtView.base · i) h
  -- taking a free slot leaves every converted one
  have htake : ∀ {start count base s : Nat}, FreeRun m.ldtInUse start count → m.seg2descCache s ≠ 0 →
      (m.ldtView.take start count base).base (m.seg2descCache s) = s * 16 := by
    intro start count base s hfree hs
    exact (LdtView.take_base_of_taken hfree (htaken s hs)).trans (hbase s hs)
  cases he with
  | refused why view =>
    refine ⟨fun _ => keepsConversions_of_refused hok why, fun _ s hs _ => ?_⟩
    exact ⟨hconv view s, (hbases view _).trans (hbase s hs)⟩
  | cached _ view _ | resized view =>
    refine ⟨fun _ => keepsConversions_of_ne (by decide) (by decide) (by decide) (by decide),
      fun _ s hs _ => ⟨hconv view s, (hbases view _).trans (hbase s hs)⟩⟩
  | run start pos _ first view _ =>
    refine ⟨fun _ => keepsConversions_of_ne (by decide) (by decide) (by decide) (by decide),
      fun _ s hs _ => ⟨hconv view s, (hbases view _).trans (htake (first.free pos) hs)⟩⟩
  | aliased idx base pos first view _ =>
    refine ⟨fun _ => keepsConversions_of_ne (by decide) (by decide) (by decide) (by decide),
      fun _ s hs _ => ⟨hconv view s, (hbases view _).trans (htake (first.free pos) hs)⟩⟩
  | specific pos low free view =>
    refine ⟨fun _ => keepsConversions_of_ne (by decide) (by decide) (by decide) (by decide),
      fun _ s hs _ => ⟨hconv view s, (hbases view _).trans (htake (fun i h₁ h₂ => ?_) hs)⟩⟩
    rw [show i = m.bx / 8 by omega]
    exact free
  | converted idx pos miss first view _ =>
    refine ⟨fun _ => keepsConversions_of_ne (by decide) (by decide) (by decide) (by decide),
      fun _ s hs _ => ⟨?_, (hbases view _).trans (htake (first.free pos) hs)⟩⟩
    have hne : s ≠ m.bx := fun h => hs (h ▸ miss)
    exact (hconv view s).trans (Function.update_of_ne hne _ _)
  | freed idx arg view =>
    refine ⟨fun _ => keepsConversions_of_ne (by decide) (by decide) (by decide) (by decide),
      fun _ s hs hf => ⟨?_, (hbases view _).trans (hbase s hs)⟩⟩
    have hne : m.seg2descCache s ≠ idx := fun h => hf (.inl ⟨rfl, h ▸ arg⟩)
    exact (hconv view s).trans (if_neg hne)
  | edited which valid view =>
    have hnot : ∀ i, ¬ FreesSlot m c i := by
      rintro i (⟨h, -⟩ | ⟨h, -⟩) <;> rcases which with rfl | rfl <;> cases h
    have h₁₀₀ : c ≠ .ax0100 := by rcases which with rfl | rfl <;> decide
    have h₁₀₁ : c ≠ .ax0101 := by rcases which with rfl | rfl <;> decide
    rcases hslot : ldtSlot m.bx with _ | idx
    · rw [hslot] at view
      refine ⟨fun _ => ⟨fun _ s _ h => ?_, fun h => absurd h h₁₀₀, fun h => absurd h h₁₀₁⟩,
        fun _ s hs _ => ⟨hconv view s, (hbases view _).trans (hbase s hs)⟩⟩
      rw [hslot] at h
      cases h
    · rw [hslot] at view
      constructor
      · intro hstand
        refine ⟨fun _ s hs h => ?_, fun h => absurd h h₁₀₀, fun h => absurd h h₁₀₁⟩
        rw [hslot] at h
        have hidx : idx = m.seg2descCache s := Option.some.inj h
        have hs' := (hstand s hs (hnot _)).2
        rw [hbases view, ← hidx] at hs'
        exact (m.ldtView.setBase_self idx (editedBase m c)).symm.trans hs'
      · intro hk s hs _
        refine ⟨hconv view s, (hbases view _).trans ?_⟩
        by_cases hi : m.seg2descCache s = idx
        · have hb := hk.bases which s hs (by rw [hslot, hi])
          rw [hi]
          exact (m.ldtView.setBase_self idx (editedBase m c)).trans hb
        · exact (m.ldtView.setBase_of_ne hi _).trans (hbase s hs)
  | block seg idx a asked alloc hseg pos' lt pos first slot view _ =>
    constructor
    · intro hstand
      refine ⟨?_, ?_, ?_⟩
      · rintro (h | h) <;> cases h
      · intro _ _ _ a' ha' hseg'
        rw [alloc] at ha'
        cases ha'
        by_contra hne
        rw [hseg] at hne
        have hkept := (hstand seg hne (by rintro (⟨h, -⟩ | ⟨h, -⟩) <;> cases h)).1
        have hnew : r.seg2descCache seg = idx :=
          (hconv view seg).trans (LdtView.convert_self _ seg idx)
        have hused := htaken seg hne
        rw [← hkept, hnew, first.free pos idx (le_refl idx) (by omega)] at hused
        cases hused
      · intro h
        cases h
    · intro hk s hs _
      have hne : s ≠ seg := by
        rintro rfl
        have hfree := hk.block rfl asked (by rw [slot]; exact pos) a alloc (by rw [hseg]; exact pos')
        exact hs (hseg ▸ hfree)
      exact ⟨(hconv view s).trans (LdtView.convert_of_ne _ hne idx),
        (hbases view _).trans (htake (first.free pos) hs)⟩
  | freedBlock idx arg view =>
    have hbaseIdx : ∀ {s : Nat}, m.seg2descCache s ≠ idx → m.seg2descCache s ≠ 0 →
        slotBase r.mem (m.seg2descCache s) = s * 16 := by
      intro s hne hs
      exact (hbases view _).trans ((Function.update_of_ne hne _ _).trans (hbase s hs))
    constructor
    · intro hstand
      refine ⟨?_, ?_, ?_⟩
      · rintro (h | h) <;> cases h
      · intro h
        cases h
      · intro _ idx' harg
        rw [arg] at harg
        cases harg
        by_contra hboth
        rw [not_or] at hboth
        have hnot : ¬ FreesSlot m .ax0101 (m.seg2descCache (slotDataSeg m idx)) := by
          rintro (⟨h, -⟩ | ⟨-, h⟩)
          · cases h
          · rw [arg] at h
            exact hboth.2 (Option.some.inj h).symm
        have hkept := (hstand _ hboth.1 hnot).1
        have hzero : r.seg2descCache (slotDataSeg m idx) = 0 :=
          (hconv view _).trans (Function.update_self _ _ _)
        exact hboth.1 (hkept.symm.trans hzero)
    · intro hk s hs hf
      have hne : m.seg2descCache s ≠ idx := fun h => hf (.inr ⟨rfl, h ▸ arg⟩)
      have hseg : s ≠ slotDataSeg m idx := by
        rintro rfl
        rcases hk.forgets rfl idx arg with h | h
        · exact hs h
        · exact hne h
      exact ⟨(hconv view s).trans (Function.update_of_ne hseg _ _), hbaseIdx hne hs⟩

/-! ### Runs -/

/-- Every call of the run meets the condition. -/
def KeepsAll (m : Machine) (e : LdtEvent) : Prop := ∀ c, e = .call c → KeepsConversions m c

/-- … and does not free slot `i`. -/
def KeepsSlot (i : Nat) (m : Machine) (e : LdtEvent) : Prop :=
  KeepsAll m e ∧ ∀ c, e = .call c → ¬ FreesSlot m c i

/-- `sel` is an allocated LDT selector of `m` with base `seg` × 16. -/
structure Converts (m : Machine) (sel seg : Nat) : Prop where
  ti : sel / 4 % 2 = 1
  pos : 1 ≤ sel / 8
  lt : sel / 8 < LDT_COUNT
  allocated : m.ldtInUse (sel / 8) = true
  base : slotBase m.mem (sel / 8) = seg * 16

/-- What AX=0002 answers in `m` is a conversion of BX, is answered again until its slot is freed, and
    is not the answer for another segment. -/
structure ConversionsSound (eng : Engine) (m : Machine) : Prop where
  answer : ∀ r, int31_0002 m = some (r, false) → Converts r r.ax m.bx
  stable : ∀ r, int31_0002 m = some (r, false) → ∀ es m',
    Guarded (ldtStep eng) (KeepsSlot (r.ax / 8)) r es m' → m'.bx = m.bx →
      ∃ r', int31_0002 m' = some (r', false) ∧ r'.ax = r.ax
  apart : ∀ r, int31_0002 m = some (r, false) → ∀ es m',
    Guarded (ldtStep eng) (KeepsSlot (r.ax / 8)) r es m' → m'.bx ≠ m.bx →
      ∀ r', int31_0002 m' = some (r', false) → r'.ax ≠ r.ax
  exact_ : ∀ c r cf, c.serve eng m = some (r, cf) → (ConversionsStand m c r ↔ KeepsConversions m c)

theorem clientSelector_ti (m : Machine) (idx : Nat) : clientSelector m idx / 4 % 2 = 1 := by
  have hbit : Nat.testBit (clientSelector m idx) 2 = true := by
    unfold clientSelector
    rw [Nat.testBit_or, Nat.testBit_or, show Nat.testBit 4 2 = true from rfl]
    simp
  rw [Nat.testBit_eq_decide_div_mod_eq] at hbit
  exact of_decide_eq_true hbit

/-- A successful AX=0002 leaves its segment remembered, for the slot of its answer. -/
theorem int31_0002_remembers (hok : m.ldtView.Ok) (h : int31_0002 m = some (r, false)) :
    r.ldtView.Ok ∧ r.seg2descCache m.bx ≠ 0 ∧ r.ax = clientSelector m (r.seg2descCache m.bx) := by
  have he := int31_0002_effect hok.cpl h
  have hok' : r.ldtView.Ok :=
    he.ok hok (keepsConversions_of_ne (by decide) (by decide) (by decide) (by decide)).bases
  refine ⟨hok', ?_⟩
  cases he with
  | cached hit view answer =>
    have hcache : r.seg2descCache = m.seg2descCache := congrArg LdtView.conv view
    rw [hcache]
    exact ⟨hit, answer.trans (Nat.mod_eq_of_lt (clientSelector_lt hok.cpl (hok.slot m.bx)))⟩
  | converted idx pos miss first view answer =>
    have hcache : r.seg2descCache m.bx = idx :=
      (congrArg (LdtView.conv · m.bx) view).trans (LdtView.convert_self _ m.bx idx)
    rw [hcache]
    exact ⟨pos, answer⟩
  | edited which => rcases which with h | h <;> cases h

/-- A remembered segment is answered with the slot remembered for it. -/
theorem int31_0002_of_conv (hok : m.ldtView.Ok) (h : m.seg2descCache m.bx ≠ 0) :
    ∃ r, int31_0002 m = some (r, false) ∧ r.ax = clientSelector m (m.seg2descCache m.bx) := by
  refine ⟨m.setR16 .eax (clientSelector m (m.seg2descCache m.bx)), ?_, ?_⟩
  · unfold int31_0002
    dsimp only
    rw [if_pos h]
    rfl
  · exact (r16_setR16 m .eax _).trans (Nat.mod_eq_of_lt (clientSelector_lt hok.cpl (hok.slot m.bx)))

/-- What a run keeps: the table in order, and slot `i` remembered for `s`. -/
structure Remembers (cpl s i : Nat) (m : Machine) : Prop where
  ok : m.ldtView.Ok
  ring : m.clientCpl = cpl
  conv : m.seg2descCache s = i

theorem Remembers.step {cpl s i : Nat} {t u : Machine} {e : LdtEvent} (hi : i ≠ 0)
    (h : Remembers cpl s i t) (hg : KeepsSlot i t e) (hstep : ldtStep eng t e u) :
    Remembers cpl s i u := by
  cases e with
  | between =>
    have hview : u.ldtView = t.ldtView := hstep
    exact ⟨hview ▸ h.ok, (congrArg LdtView.cpl hview).trans h.ring,
      (congrArg (LdtView.conv · s) hview).trans h.conv⟩
  | call c =>
    obtain ⟨cf, hserve⟩ := hstep
    have he := serve_effect h.ok.cpl hserve
    have hk := hg.1 c rfl
    have hstand := (conversionsStand_iff h.ok he).mpr hk s (by rw [h.conv]; exact hi)
      (by rw [h.conv]; exact hg.2 c rfl)
    exact ⟨he.ok h.ok hk.bases, he.cpl.trans h.ring, hstand.1.trans h.conv⟩

theorem Remembers.run {cpl s i : Nat} {es : List LdtEvent} (hi : i ≠ 0)
    (hrun : Guarded (ldtStep eng) (KeepsSlot i) m es r) (h : Remembers cpl s i m) :
    Remembers cpl s i r :=
  hrun.invariant (fun _ _ _ h hg hstep => h.step hi hg hstep) h

/-- One event keeps the table in order. -/
theorem ok_step {t u : Machine} {e : LdtEvent} (h : t.ldtView.Ok) (hg : KeepsAll t e)
    (hstep : ldtStep eng t e u) : u.ldtView.Ok := by
  cases e with
  | between =>
    have hview : u.ldtView = t.ldtView := hstep
    exact hview ▸ h
  | call c =>
    obtain ⟨cf, hserve⟩ := hstep
    exact (serve_effect h.cpl hserve).ok h (hg c rfl).bases

/-- **Segment conversions.**  In every run whose calls meet the condition, AX=0002 answers with an
    allocated descriptor of its segment, the same one until that is freed, and never one answer
    for two segments; and the conversions stand across a call exactly where it meets the
    condition. -/
theorem conversions_sound {m₀ : Machine} (h₀ : NoConversions m₀) {es : List LdtEvent}
    (hrun : Guarded (ldtStep eng) KeepsAll m₀ es m) : ConversionsSound eng m := by
  have hok : m.ldtView.Ok :=
    hrun.invariant (P := fun s => s.ldtView.Ok) (fun _ _ _ h hg hs => ok_step h hg hs) h₀.ok
  have hafter : ∀ r, int31_0002 m = some (r, false) → r.seg2descCache m.bx ≠ 0 ∧
      r.ax / 8 = r.seg2descCache m.bx ∧
        Remembers m.clientCpl m.bx (r.seg2descCache m.bx) r := by
    intro r hr
    obtain ⟨hok', hne, hax⟩ := int31_0002_remembers hok hr
    have hslot : r.ax / 8 = r.seg2descCache m.bx := by
      rw [hax]
      exact clientSelector_slot hok.cpl _
    exact ⟨hne, hslot, ⟨hok', (int31_0002_effect hok.cpl hr).cpl, rfl⟩⟩
  have hsel : ∀ {t : Machine} (i : Nat), t.clientCpl = m.clientCpl →
      clientSelector t i = clientSelector m i := by
    intro t i h
    rw [clientSelector, h, clientSelector]
  refine ⟨?_, ?_, ?_, ?_⟩
  · intro r hr
    obtain ⟨hne, hslot, hrem⟩ := hafter r hr
    have hax := (int31_0002_remembers hok hr).2.2
    refine ⟨by rw [hax]; exact clientSelector_ti m _, ?_, ?_, ?_, ?_⟩
    · rw [hslot]
      omega
    · rw [hslot]
      exact hrem.ok.slot m.bx
    · rw [hslot]
      exact hrem.ok.taken m.bx hne
    · rw [hslot]
      exact hrem.ok.base m.bx hne
  · intro r hr es m' hrun' hbx
    obtain ⟨hne, hslot, hrem⟩ := hafter r hr
    rw [hslot] at hrun'
    have hrem' := hrem.run hne hrun'
    obtain ⟨r', hr', hax'⟩ := int31_0002_of_conv hrem'.ok (by rw [hbx, hrem'.conv]; exact hne)
    refine ⟨r', hr', ?_⟩
    rw [hax', hbx, hrem'.conv, hsel _ hrem'.ring]
    exact (int31_0002_remembers hok hr).2.2.symm
  · intro r hr es m' hrun' hbx r' hr' heq
    obtain ⟨hne, hslot, hrem⟩ := hafter r hr
    rw [hslot] at hrun'
    have hrem' := hrem.run hne hrun'
    obtain ⟨hok', hne', hax'⟩ := int31_0002_remembers hrem'.ok hr'
    have hslot' : r'.seg2descCache m'.bx = r.seg2descCache m.bx := by
      rw [← clientSelector_slot hrem'.ok.cpl (r'.seg2descCache m'.bx), ← hax', heq, hslot]
    -- the conversion of the first segment is still there after the second
    have hk : KeepsConversions m' .ax0002 :=
      keepsConversions_of_ne (by decide) (by decide) (by decide) (by decide)
    have hstand := (conversionsStand_iff hrem'.ok (int31_0002_effect hrem'.ok.cpl hr')).mpr hk m.bx
      (by rw [hrem'.conv]; exact hne) (by rintro (⟨h, -⟩ | ⟨h, -⟩) <;> cases h)
    have hsame : r'.ldtView.conv m'.bx = r'.ldtView.conv m.bx := by
      show r'.seg2descCache m'.bx = r'.seg2descCache m.bx
      rw [hslot', hstand.1, hrem'.conv]
    exact hbx (hok'.inj hne' hsame)
  · intro c r cf hserve
    exact conversionsStand_iff hok (serve_effect hok.cpl hserve)

/-! ### A stale conversion -/

theorem noConversions_boot : NoConversions bootMachine := ⟨fun _ => rfl, by decide⟩

/-- The machine a call answers with. -/
def answered (f : Machine → Reply) (m : Machine) : Machine := (f m).elim m (·.1)

theorem ldtStep_answered {c : LdtCall} (h : (c.serve eng m).isSome = true) :
    ldtStep eng m (.call c) (answered (c.serve eng) m) := by
  obtain ⟨⟨r, cf⟩, hr⟩ := Option.isSome_iff_exists.mp h
  refine ⟨cf, ?_⟩
  rw [answered, hr]
  rfl

/-- Segment 1234h is converted (selector 0Ch), … -/
def converted₁ : Machine := answered int31_0002 (loadRegs bootMachine 0x1234 0 0)

/-- … its descriptor gets the base 50000h, … -/
def rebased : Machine := answered (int31_0007 tableEngine) (loadRegs converted₁ 0xC 5 0)

/-- … and is freed as a DOS block. -/
def staleConv : Machine := answered int31_0101 (loadRegs rebased 0 0 0xC)

theorem conversions_sound_once : ConversionsSound tableEngine converted₁ := by
  refine conversions_sound noConversions_boot
    (.cons (fun c h => by cases h) (ldtStep_loadRegs tableEngine bootMachine 0x1234 0 0)
      (.cons (fun c h => ?_) (ldtStep_answered (c := .ax0002) (by decide +kernel)) (.nil _)))
  cases h
  exact keepsConversions_of_ne (by decide) (by decide) (by decide) (by decide)

theorem staleConv_run : Run (ldtStep tableEngine) bootMachine
    [.between, .call .ax0002, .between, .call .ax0007, .between, .call .ax0101, .between]
    (loadRegs staleConv 0x1234 0 0) :=
  .cons (ldtStep_loadRegs tableEngine bootMachine 0x1234 0 0)
    (.cons (ldtStep_answered (c := .ax0002) (by decide +kernel))
      (.cons (ldtStep_loadRegs tableEngine converted₁ 0xC 5 0)
        (.cons (ldtStep_answered (c := .ax0007) (by decide +kernel))
          (.cons (ldtStep_loadRegs tableEngine rebased 0 0 0xC)
            (.cons (ldtStep_answered (c := .ax0101) (by decide +kernel))
              (.single (ldtStep_loadRegs tableEngine staleConv 0x1234 0 0)))))))

/-- AX=0002 still answers the selector of the freed slot. -/
theorem conversion_stale : ¬ ∀ es m, Run (ldtStep tableEngine) bootMachine es m →
    ∀ r, int31_0002 m = some (r, false) → Converts r r.ax m.bx := by
  intro h
  have hfree : (int31_0002 (loadRegs staleConv 0x1234 0 0)).map
      (fun p => (p.2, p.1.ldtInUse (p.1.ax / 8))) = some (false, false) := by
    decide +kernel
  obtain ⟨⟨r, cf⟩, hr, hp⟩ := Option.map_eq_some_iff.mp hfree
  obtain ⟨rfl, hused⟩ := Prod.mk.inj hp
  have hconv := (h _ _ staleConv_run r hr).allocated
  rw [hused] at hconv
  cases hconv

end Dosiz
