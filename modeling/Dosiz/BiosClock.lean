/-
  Dosiz/BiosClock.lean
  ====================
  **The BIOS clock** (`fire_ticks` of `dosbox_compat.cc`; `dosiz_pktdrv_tick`, `dosiz_bios_timer_tick` and
  `dosiz_int1a` of `bridge.cc`).

  The counter at 46Ch has two tick handlers where the packet driver is installed, and only the second one
  looks for midnight.  The counter still shows the time of day after any number of ticks, and a
  program that adds up what AH=0 answers in AL misses one day for each midnight that finds the flag of the one
  before it unread (`clock_run`).
-/
import Mathlib.Data.List.Induction
import Mathlib.Tactic.Ring
import Dosiz.Machine
import Dosiz.Transition

namespace Dosiz.BiosClock

open ByteMemory Machine Transition

/-! ### The handlers -/

def BIOS_TIMER : Nat := 0x46C
def BIOS_24_HOURS_FLAG : Nat := 0x470

/-- The ticks of a day. -/
def DAY : Nat := 0x1800B0

/-- `dosiz_pktdrv_tick`: no frame ever arrives, which leaves the counter. -/
def pktdrvTick (mem : Mem) : Mem := writed mem BIOS_TIMER (lin (readd mem BIOS_TIMER + 1))

/-- `dosiz_bios_timer_tick` -/
def biosTimerTick (mem : Mem) : Mem :=
  let t := lin (readd mem BIOS_TIMER + 1)
  if DAY ≤ t then writed (writeb mem BIOS_24_HOURS_FLAG 1) BIOS_TIMER 0 else writed mem BIOS_TIMER t

/-- `fire_ticks`: the handlers in the order in which `run_program` has added them.  The packet driver's is
    there if there was a paragraph for its stub. -/
def fireTicks (pktdrv : Bool) (mem : Mem) : Mem := biosTimerTick (if pktdrv then pktdrvTick mem else mem)

/-- `dosiz_int1a` -/
def int1a (m : Machine) : Machine :=
  if m.r8h .eax = 0 then
    let ticks := readd m.mem BIOS_TIMER
    let flag := readb m.mem BIOS_24_HOURS_FLAG
    ((m.setMem (writeb m.mem BIOS_24_HOURS_FLAG 0)).setR8l .eax flag).setR16s
      [(.ecx, ticks / 65536), (.edx, ticks)]
  else m

/-! ### Runs -/

/-- `time` comes with the ticks and the flag that AH=0 answers. -/
inductive ClockEvent where
  | tick
  | time (ticks flag : Nat)
  | otherCall
  | guest
deriving DecidableEq

/-- The bytes of the counter and of the flag. -/
def clockBytes : Set Nat := Set.Ico BIOS_TIMER (BIOS_24_HOURS_FLAG + 1)

def clockStep (pktdrv : Bool) (m : Machine) (e : ClockEvent) (m' : Machine) : Prop :=
  match e with
  | .tick => m' = m.setMem (fireTicks pktdrv m.mem)
  | .time ticks flag => m.r8h .eax = 0 ∧ m' = int1a m ∧ ticks = 65536 * m'.cx + m'.dx ∧ flag = m'.r8l .eax
  | .otherCall => m.r8h .eax ≠ 0 ∧ m' = int1a m
  | .guest => AgreesOff (Set.compl clockBytes) m.mem m'.mem

/-- What each round of ticks adds. -/
def rate (pktdrv : Bool) : Nat := if pktdrv then 2 else 1

/-- What has happened: the rounds of ticks, the rounds at the last call, the sum of the flags it has
    answered, and the midnights that found the flag set. -/
structure Almanac where
  ticks : Nat
  asked : Nat
  days : Nat
  missed : Nat

section Almanac

variable (t₀ r : Nat)

/-- The midnights in the first `n` rounds of ticks. -/
def midnights (n : Nat) : Nat := (t₀ + r * n) / DAY

/-- A midnight has come that no call has asked for. -/
def Almanac.unread (a : Almanac) : Bool := midnights t₀ r a.asked < midnights t₀ r a.ticks

def Almanac.note (a : Almanac) : ClockEvent → Almanac
  | .tick =>
    { a with
      ticks := a.ticks + 1
      missed := a.missed +
        (if a.unread t₀ r && midnights t₀ r a.ticks < midnights t₀ r (a.ticks + 1) then 1 else 0) }
  | .time _ flag => { a with asked := a.ticks, days := a.days + flag }
  | _ => a

/-- The almanac after the events. -/
def almanac (es : List ClockEvent) : Almanac := es.foldl (Almanac.note t₀ r) ⟨0, 0, 0, 0⟩

theorem almanac_concat (es : List ClockEvent) (e : ClockEvent) :
    almanac t₀ r (es ++ [e]) = (almanac t₀ r es).note t₀ r e := List.foldl_append

end Almanac

/-! ### One round of ticks -/

section Tick

variable {mem : Mem} {t : Nat}

theorem readd_clock (a : Nat) : readd (writed mem BIOS_TIMER a) BIOS_TIMER = lin a := readd_writed mem BIOS_TIMER a

theorem flag_clock (a : Nat) : readb (writed mem BIOS_TIMER a) BIOS_24_HOURS_FLAG = readb mem BIOS_24_HOURS_FLAG :=
  (writed_off mem BIOS_TIMER a).readb (by simp [BIOS_TIMER, BIOS_24_HOURS_FLAG])

/-- What `dosiz_bios_timer_tick` makes of the counter and the flag. -/
theorem biosTimerTick_spec (ht : readd mem BIOS_TIMER = t) (hlt : t ≤ DAY) :
    readd (biosTimerTick mem) BIOS_TIMER = (if DAY ≤ t + 1 then 0 else t + 1) ∧
      readb (biosTimerTick mem) BIOS_24_HOURS_FLAG =
        if DAY ≤ t + 1 then 1 else readb mem BIOS_24_HOURS_FLAG := by
  have hlin : lin (t + 1) = t + 1 := Nat.mod_eq_of_lt (by unfold DAY at hlt; omega)
  simp only [biosTimerTick, ht, hlin]
  split_ifs with h
  · exact ⟨readd_clock 0, (flag_clock 0).trans (readb_writeb mem BIOS_24_HOURS_FLAG 1)⟩
  · exact ⟨(readd_clock (t + 1)).trans hlin, flag_clock (t + 1)⟩

/-- A round of ticks, from a time of day that is a multiple of the rate. -/
theorem fireTicks_spec (pktdrv : Bool) (ht : readd mem BIOS_TIMER = t) (hlt : t < DAY) (hdvd : rate pktdrv ∣ t) :
    readd (fireTicks pktdrv mem) BIOS_TIMER = (if t + rate pktdrv < DAY then t + rate pktdrv else 0) ∧
      readb (fireTicks pktdrv mem) BIOS_24_HOURS_FLAG =
        if t + rate pktdrv < DAY then readb mem BIOS_24_HOURS_FLAG else 1 := by
  cases pktdrv with
  | false =>
    obtain ⟨hcount, hflag⟩ := biosTimerTick_spec ht hlt.le
    rw [fireTicks, if_neg Bool.false_ne_true, hcount, hflag]
    simp only [rate, if_neg Bool.false_ne_true, ← Nat.not_lt, ite_not, and_self]
  | true =>
    -- the packet driver's handler has added one without looking for midnight
    have hfirst : readd (pktdrvTick mem) BIOS_TIMER = t + 1 := by
      rw [pktdrvTick, ht, readd_clock]
      have hsmall : t + 1 < 4294967296 := by
        unfold DAY at hlt
        omega
      simp only [lin, Nat.mod_eq_of_lt hsmall]
    obtain ⟨hcount, hflag⟩ := biosTimerTick_spec hfirst hlt
    rw [fireTicks, if_pos rfl, hcount, hflag, pktdrvTick, flag_clock]
    simp only [rate, if_pos, ← Nat.not_lt, ite_not, add_assoc, and_self]

end Tick

/-- The time of day and the midnights, one round of ticks later. -/
theorem round_of_ticks (pktdrv : Bool) {x : Nat} (hx : rate pktdrv ∣ x) :
    (x + rate pktdrv) % DAY = (if x % DAY + rate pktdrv < DAY then x % DAY + rate pktdrv else 0) ∧
      (x + rate pktdrv) / DAY = x / DAY + if x % DAY + rate pktdrv < DAY then 0 else 1 := by
  unfold DAY
  cases pktdrv <;> simp only [rate, if_true, Bool.false_eq_true, if_false] at hx ⊢ <;>
    split_ifs <;> omega

/-! ### The invariant -/

/-- The clock after the events: the time of day, the flag of an unread midnight, and every midnight accounted for. -/
structure Kept (pktdrv : Bool) (t₀ : Nat) (a : Almanac) (m : Machine) : Prop where
  ticks : readd m.mem BIOS_TIMER = (t₀ + rate pktdrv * a.ticks) % DAY
  flag : readb m.mem BIOS_24_HOURS_FLAG = if a.unread t₀ (rate pktdrv) then 1 else 0
  asked : midnights t₀ (rate pktdrv) a.asked ≤ midnights t₀ (rate pktdrv) a.ticks
  days : a.days + a.missed + (if a.unread t₀ (rate pktdrv) then 1 else 0) = midnights t₀ (rate pktdrv) a.ticks

section Steps

variable {pktdrv : Bool} {t₀ : Nat} {a : Almanac} {m m' : Machine}

theorem kept_tick (hdvd : rate pktdrv ∣ t₀) (h : Kept pktdrv t₀ a m) :
    Kept pktdrv t₀ (a.note t₀ (rate pktdrv) .tick) (m.setMem (fireTicks pktdrv m.mem)) := by
  obtain ⟨hticks, hflag, hasked, hdays⟩ := h
  have hx : rate pktdrv ∣ t₀ + rate pktdrv * a.ticks := Nat.dvd_add hdvd (Nat.dvd_mul_right _ _)
  have hdvd' : rate pktdrv ∣ (t₀ + rate pktdrv * a.ticks) % DAY :=
    (Nat.dvd_mod_iff (by cases pktdrv <;> decide)).mpr hx
  obtain ⟨hcount, hflag'⟩ := fireTicks_spec pktdrv hticks (Nat.mod_lt _ (by decide)) hdvd'
  obtain ⟨hmod, hdiv⟩ := round_of_ticks pktdrv hx
  have hnext : t₀ + rate pktdrv * (a.ticks + 1) = t₀ + rate pktdrv * a.ticks + rate pktdrv := by ring
  have hmid : midnights t₀ (rate pktdrv) (a.ticks + 1) = midnights t₀ (rate pktdrv) a.ticks +
      if (t₀ + rate pktdrv * a.ticks) % DAY + rate pktdrv < DAY then 0 else 1 := by
    rw [midnights, midnights, hnext, hdiv]
  refine ⟨hcount.trans ((congrArg (· % DAY) hnext).trans hmod).symm, hflag'.trans ?_, ?_, ?_⟩
  · rw [hflag]
    simp only [Almanac.note, Almanac.unread, hmid, decide_eq_true_eq]
    split_ifs <;> omega
  · simp only [Almanac.note, hmid]
    omega
  · simp only [Almanac.note, Almanac.unread, hmid, Bool.and_eq_true, decide_eq_true_eq] at hdays ⊢
    split_ifs at hdays ⊢ <;> omega

/-- What AH=0 answers, and what it leaves. -/
theorem int1a_spec (hah : m.r8h .eax = 0) :
    65536 * (int1a m).cx + (int1a m).dx = readd m.mem BIOS_TIMER ∧
      (int1a m).r8l .eax = readb m.mem BIOS_24_HOURS_FLAG ∧
      (int1a m).mem = writeb m.mem BIOS_24_HOURS_FLAG 0 := by
  have hticks := readd_lt m.mem BIOS_TIMER
  have hflag := readb_lt m.mem BIOS_24_HOURS_FLAG
  rw [int1a, if_pos hah]
  refine ⟨?_, ?_, rfl⟩
  · show 65536 * (Machine.setR16 (Machine.setR16 _ _ _) _ _).r16 .ecx +
      (Machine.setR16 (Machine.setR16 _ _ _) _ _).r16 .edx = _
    rw [r16_setR16_of_ne _ _ (show Reg.ecx ≠ Reg.edx by decide), r16_setR16, r16_setR16]
    omega
  · show (Machine.setR16 (Machine.setR16 (Machine.setR8l _ _ _) _ _) _ _).r8l .eax = _
    simp only [r8l, setR16, r32_setR32_of_ne _ _ (show Reg.eax ≠ .edx by decide),
      r32_setR32_of_ne _ _ (show Reg.eax ≠ .ecx by decide)]
    exact (r8l_setR8l _ .eax _).trans (Nat.mod_eq_of_lt hflag)

theorem kept_time {ticks flag : Nat} (h : Kept pktdrv t₀ a m) (hah : m.r8h .eax = 0)
    (hflag : flag = (int1a m).r8l .eax) : Kept pktdrv t₀ (a.note t₀ (rate pktdrv) (.time ticks flag)) (int1a m) := by
  obtain ⟨-, hal, hmem⟩ := int1a_spec hah
  have hread : readd (int1a m).mem BIOS_TIMER = readd m.mem BIOS_TIMER := by
    rw [hmem]
    refine (writeb_off m.mem BIOS_24_HOURS_FLAG 0).readd ?_ ?_ ?_ ?_ <;>
      simp [BIOS_TIMER, BIOS_24_HOURS_FLAG]
  refine ⟨hread.trans h.ticks, ?_, le_refl _, ?_⟩
  · rw [hmem, readb_writeb]
    simp [Almanac.note, Almanac.unread]
  · have hdays := h.days
    rw [← h.flag, ← hal, ← hflag] at hdays
    simp only [Almanac.note, Almanac.unread, Nat.lt_irrefl, decide_false, Bool.false_eq_true, if_false]
    omega

theorem kept_guest (h : Kept pktdrv t₀ a m) (hm : AgreesOff (Set.compl clockBytes) m.mem m'.mem) :
    Kept pktdrv t₀ a m' := by
  have hin : ∀ i, BIOS_TIMER ≤ i → i < BIOS_24_HOURS_FLAG + 1 → i ∉ Set.compl clockBytes :=
    fun i h₁ h₂ hi => hi ⟨h₁, h₂⟩
  refine ⟨(hm.readd ?_ ?_ ?_ ?_).trans h.ticks, (hm.readb ?_).trans h.flag, h.asked, h.days⟩ <;>
    exact hin _ (by decide) (by decide)

theorem kept_step {e : ClockEvent} (hdvd : rate pktdrv ∣ t₀) (h : Kept pktdrv t₀ a m)
    (hs : clockStep pktdrv m e m') : Kept pktdrv t₀ (a.note t₀ (rate pktdrv) e) m' := by
  cases e with
  | tick =>
    obtain rfl := hs
    exact kept_tick hdvd h
  | time ticks flag =>
    obtain ⟨hah, rfl, -, hflag⟩ := hs
    exact kept_time h hah hflag
  | otherCall =>
    obtain ⟨hah, rfl⟩ := hs
    rw [int1a, if_neg hah]
    exact h
  | guest => exact kept_guest h hs

theorem kept_run {es : List ClockEvent} (hdvd : rate pktdrv ∣ t₀) (h₀ : Kept pktdrv t₀ ⟨0, 0, 0, 0⟩ m)
    (h : Run (clockStep pktdrv) m es m') : Kept pktdrv t₀ (almanac t₀ (rate pktdrv) es) m' := by
  induction es using List.reverseRecOn generalizing m' with
  | nil =>
    cases h
    exact h₀
  | append_singleton es e ih =>
    obtain ⟨u, hu, he⟩ := h.split
    cases he with
    | cons he rest =>
      cases rest
      rw [almanac_concat]
      exact kept_step hdvd (ih hu) he

end Steps

/-! ### The clock of a run -/

/-- A clock that shows `t₀`, as `run_program` sets it: a multiple of the rate, and no flag. -/
structure ShowsTime (pktdrv : Bool) (t₀ : Nat) (m : Machine) : Prop where
  ticks : readd m.mem BIOS_TIMER = t₀
  flag : readb m.mem BIOS_24_HOURS_FLAG = 0
  lt : t₀ < DAY
  dvd : rate pktdrv ∣ t₀

theorem ShowsTime.kept {pktdrv : Bool} {t₀ : Nat} {m : Machine} (h : ShowsTime pktdrv t₀ m) :
    Kept pktdrv t₀ ⟨0, 0, 0, 0⟩ m := by
  have hmid : midnights t₀ (rate pktdrv) 0 = 0 := Nat.div_eq_of_lt h.lt
  have hunread : Almanac.unread t₀ (rate pktdrv) ⟨0, 0, 0, 0⟩ = false := decide_eq_false (Nat.lt_irrefl _)
  refine ⟨h.ticks.trans (Nat.mod_eq_of_lt h.lt).symm, ?_, le_refl _, ?_⟩
  · rw [h.flag, hunread, if_neg Bool.false_ne_true]
  · rw [hunread, if_neg Bool.false_ne_true]
    exact hmid.symm

/-- **The time and the date.**  After any run the counter shows the time of day; every call of AH=0 answers it, with
    the flag exactly if a midnight has come since the last call; and the flags a program has added up, the midnights
    that found the flag set and the one still unread are all the midnights there were. -/
theorem clock_run {pktdrv : Bool} {t₀ : Nat} {m m' : Machine} {es : List ClockEvent}
    (h₀ : ShowsTime pktdrv t₀ m) (h : Run (clockStep pktdrv) m es m') :
    readd m'.mem BIOS_TIMER = (t₀ + rate pktdrv * (almanac t₀ (rate pktdrv) es).ticks) % DAY ∧
      (∀ es₁ ticks flag es₂, es = es₁ ++ .time ticks flag :: es₂ →
        ticks = (t₀ + rate pktdrv * (almanac t₀ (rate pktdrv) es₁).ticks) % DAY ∧
          flag = if (almanac t₀ (rate pktdrv) es₁).unread t₀ (rate pktdrv) then 1 else 0) ∧
      (almanac t₀ (rate pktdrv) es).days + (almanac t₀ (rate pktdrv) es).missed +
        (if (almanac t₀ (rate pktdrv) es).unread t₀ (rate pktdrv) then 1 else 0) =
          midnights t₀ (rate pktdrv) (almanac t₀ (rate pktdrv) es).ticks := by
  have hkept := kept_run h₀.dvd h₀.kept h
  refine ⟨hkept.ticks, ?_, hkept.days⟩
  rintro es₁ ticks flag es₂ rfl
  obtain ⟨u, hu, hrest⟩ := h.split
  have hbefore := kept_run h₀.dvd h₀.kept hu
  cases hrest with
  | cons hcall _ =>
    obtain ⟨hah, rfl, hticks, hflag⟩ := hcall
    obtain ⟨hcount, hal, -⟩ := int1a_spec hah
    exact ⟨hticks.trans (hcount.trans hbefore.ticks), hflag.trans (hal.trans hbefore.flag)⟩

/-- Two ticks before midnight, with the packet driver. -/
def lateEvening : Machine := { bootMachine with mem := writed (fun _ => 0) BIOS_TIMER (DAY - 2) }

/-- The next round of ticks ends the day, and the next call says so. -/
theorem clock_run_midnight :
    ShowsTime true (DAY - 2) lateEvening ∧
      (almanac (DAY - 2) 2 [.tick, .time 0 1]).days = 1 ∧ midnights (DAY - 2) 2 1 = 1 ∧
      readd (int1a (lateEvening.setMem (fireTicks true lateEvening.mem))).mem BIOS_TIMER = 0 := by
  have hset : ShowsTime true (DAY - 2) lateEvening :=
    ⟨by decide +kernel, by decide +kernel, by decide, by decide⟩
  have hrun : Run (clockStep true) lateEvening [.tick, .time 0 1]
      (int1a (lateEvening.setMem (fireTicks true lateEvening.mem))) :=
    .cons rfl (.single ⟨by decide +kernel, rfl, by decide +kernel, by decide +kernel⟩)
  exact ⟨hset, by decide +kernel, by decide +kernel, (clock_run hset hrun).1.trans (by decide +kernel)⟩

end Dosiz.BiosClock
